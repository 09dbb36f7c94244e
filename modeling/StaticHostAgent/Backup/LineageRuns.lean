import StaticHostAgent.Audit.Linked
import StaticHostAgent.Backup.Lineage
import StaticHostAgent.Contracts.TableEncoding
import StaticHostAgent.Library.AsciiJson
import StaticHostAgent.Library.Handlers
import Mathlib.Logic.Relation

/-!
# A lineage is initialized once

A call makes at most one change, and only after all its checks: it creates the genesis, or it
publishes the primary as a copy of the genesis (`lineageForRepository_spec`). From that the runs
follow: no step of a run changes an existing genesis, and the boundary that the genesis records stays
a prefix of the log.
-/

set_option autoImplicit false

namespace StaticHostAgent.Backup

open Library Contracts Host Audit

variable {h : LineageHost} {record : LineageRecord} {s t : LineageState} {call : LineageCall h}

/-! ## Records -/

theorem FramedDigest.ofJson_eq_some {j : Json} {d : FramedDigest} (hj : ofJson j = some d) :
    j = d.json := by
  unfold ofJson at hj
  split at hj
  · obtain rfl := Option.some.inj hj
    rfl
  · cases hj

theorem optionalDigestOfJson_eq_some {j : Json} {d : Option FramedDigest}
    (hj : optionalDigestOfJson j = some d) : j = optionalDigestJson d := by
  unfold optionalDigestOfJson at hj
  split at hj
  · obtain rfl := Option.some.inj hj
    rfl
  · obtain ⟨digest, hdigest, rfl⟩ := Option.map_eq_some_iff.1 hj
    exact FramedDigest.ofJson_eq_some hdigest

theorem stringOfJson_eq_some {j : Json} {text : String} (hj : stringOfJson j = some text) :
    j = .string text := by
  cases j <;> cases hj
  rfl

theorem naturalOfJson_eq_some {j : Json} {n : Nat} (hj : naturalOfJson j = some n) :
    j = .number n := by
  unfold naturalOfJson at hj
  split at hj
  · rename_i value
    split at hj
    · rename_i hvalue
      obtain rfl := Option.some.inj hj
      refine congrArg Json.number ?_
      have hnum : ((value.num.toNat : Nat) : ℤ) = value.num := Int.toNat_of_nonneg hvalue.2
      have hwhole : ((value.num : ℤ) : ℚ) = value := Rat.coe_int_num_of_den_eq_one hvalue.1
      rw [← hwhole, ← hnum]
      rfl
    · cases hj
  · cases hj

theorem IdentityDocument.ofJson_eq_some {j : Json} {d : IdentityDocument}
    (hj : ofJson j = some d) : j = d.json := by
  unfold ofJson at hj
  split at hj
  · split at hj
    · rename_i hschema
      obtain rfl := Option.some.inj hj
      rw [hschema]
      rfl
    · cases hj
  · cases hj

theorem orFail_eq_ok {α : Type} {error : BackupError} {found : Option α} {a : α} :
    orFail error found = .ok a ↔ found = some a := by
  cases found with
  | none => exact ⟨fun heq => (nomatch heq), fun heq => (nomatch heq)⟩
  | some b => exact ⟨fun heq => by cases heq; rfl, fun heq => by cases heq; rfl⟩

/-- A record says everything that the object says. -/
theorem recordOfMembers_eq_ok {members : List (String × Json)}
    (hrecord : recordOfMembers members = .ok record) : members = record.members := by
  unfold recordOfMembers at hrecord
  split at hrecord
  · simp only [bind_eq_ok, require_eq_ok, decide_eq_true_eq, orFail_eq_ok, pure_eq_ok] at hrecord
    obtain ⟨-, hschema, lineageId, hlineage, initializedAt, hinitialized, identity, hidentity,
      binding, hbinding, bound, hbound, count, hcount, terminal, hterminal, rfl⟩ := hrecord
    rw [stringOfJson_eq_some hschema, stringOfJson_eq_some hlineage,
      stringOfJson_eq_some hinitialized, IdentityDocument.ofJson_eq_some hidentity,
      FramedDigest.ofJson_eq_some hbinding, FramedDigest.ofJson_eq_some hbound,
      naturalOfJson_eq_some hcount, optionalDigestOfJson_eq_some hterminal]
    rfl
  · cases hrecord

theorem validateLineage_eq_ok {members : List (String × Json)}
    (hrecord : validateLineage h members = .ok record) :
    members = record.members ∧ record.check h = .ok () := by
  unfold validateLineage at hrecord
  simp only [bind_eq_ok, pure_eq_ok] at hrecord
  obtain ⟨found, hfound, ⟨⟩, hcheck, rfl⟩ := hrecord
  exact ⟨recordOfMembers_eq_ok hfound, hcheck⟩

theorem IdentityDocument.json_normal (d : IdentityDocument) : d.json.Normal := by
  have hnames : Json.NamesAscend ["configId", "locator", "nodeName", "schema"] := by decide
  refine .object _ hnames ?_
  simp only [List.forall_mem_cons]
  exact ⟨.string _, .string _, .string _, .string _, fun _ hmem => absurd hmem List.not_mem_nil⟩

theorem optionalDigestJson_normal (d : Option FramedDigest) : (optionalDigestJson d).Normal := by
  cases d with
  | none => exact .null
  | some digest => exact digest.json_normal

/-- A record as a JSON object. -/
def LineageRecord.object (r : LineageRecord) : JsonObject where
  members := r.members
  normal := by
    have hnames : Json.NamesAscend ["initialEntryCount", "initialTerminalEntryDigest",
      "initializedAt", "lineageId", "namespaceDigest", "repository", "repositoryBinding",
      "schema"] := by decide
    refine .object _ hnames ?_
    simp only [LineageRecord.members, List.forall_mem_cons]
    exact ⟨.number _, optionalDigestJson_normal _, .string _, .string _,
      r.namespaceDigest.json_normal, r.repository.json_normal, r.repositoryBinding.json_normal,
      .string _, fun _ hmem => absurd hmem List.not_mem_nil⟩

/-- Records with the same bytes have the same boundary. -/
theorem boundary_of_bytes {record record' : LineageRecord} {raw : Bytes}
    (hraw : h.encodeRecord (.object record.members) maxIdentityBytes = some raw)
    (hraw' : h.encodeRecord (.object record'.members) maxIdentityBytes = some raw) :
    record.initialEntryCount = record'.initialEntryCount := by
  have hsame : record.object = record'.object :=
    CanonicalText.encodeRecord_injective hraw hraw'
  have hcount : (record.initialEntryCount : ℚ) = (record'.initialEntryCount : ℚ) := by
    have hmembers := congrArg JsonObject.members hsame
    simp only [LineageRecord.object, LineageRecord.members, List.cons.injEq, Prod.mk.injEq,
      Json.number.injEq] at hmembers
    exact hmembers.1.2
  exact_mod_cast hcount

/-- A lineage that is read has the bytes of its record. -/
theorem decodeLineage_eq_ok {raw : Bytes} (hrecord : decodeLineage h raw = .ok record) :
    h.encodeRecord (.object record.members) maxIdentityBytes = some raw ∧
      record.check h = .ok () := by
  unfold decodeLineage at hrecord
  simp only [bind_eq_ok, require_eq_ok, decide_eq_true_eq, orFail_eq_ok] at hrecord
  obtain ⟨members, -, -, hcanonical, hvalid⟩ := hrecord
  obtain ⟨rfl, hcheck⟩ := validateLineage_eq_ok hvalid
  exact ⟨hcanonical, hcheck⟩

theorem optionalLineage_eq_ok {file : Option Bytes} {found : Option LineageRecord}
    (hfile : optionalLineage h file = .ok found) :
    (file = none ∧ found = none) ∨
      ∃ raw record, file = some raw ∧ found = some record ∧ decodeLineage h raw = .ok record := by
  unfold optionalLineage at hfile
  split at hfile
  · exact Or.inl ⟨rfl, (pure_eq_ok.1 hfile).symm⟩
  · rename_i raw
    simp only [bind_eq_ok, pure_eq_ok, readBounded, require_eq_ok] at hfile
    obtain ⟨found', ⟨-, -, rfl⟩, record, hrecord, rfl⟩ := hfile
    exact Or.inr ⟨raw, record, rfl, rfl, hrecord⟩

theorem optionalLineage_eq_none {file : Option Bytes}
    (hfile : optionalLineage h file = .ok none) : file = none := by
  rcases optionalLineage_eq_ok hfile with ⟨hnone, -⟩ | ⟨_, _, -, hfound, -⟩
  · exact hnone
  · cases hfound

theorem optionalLineage_eq_some {file : Option Bytes}
    (hfile : optionalLineage h file = .ok (some record)) :
    ∃ raw, file = some raw ∧ decodeLineage h raw = .ok record := by
  rcases optionalLineage_eq_ok hfile with ⟨-, hfound⟩ | ⟨raw, record', hraw, hfound, hdecode⟩
  · cases hfound
  · obtain rfl := Option.some.inj hfound
    exact ⟨raw, hraw, hdecode⟩

/-- The bytes that are published for a record that was read are those it was read from. -/
theorem bytes_of_decode {raw raw' : Bytes} (hdecode : decodeLineage h raw = .ok record)
    (hbytes : LineageRecord.bytes (h := h) record = .ok raw') : raw' = raw := by
  have hencode := (decodeLineage_eq_ok hdecode).1
  have hagain : h.encodeRecord (.object record.members) maxCanonicalBytes = some raw' :=
    orFail_eq_ok.1 hbytes
  exact Option.some.inj (hagain.symm.trans hencode)

/-! ## The log -/

/-- The log was read completely and has these entries. -/
def LogHas (h : LineageHost) (s : LineageState) (xs : List AuditEntry) : Prop :=
  ∃ archive segments state, readLog h s = .ok (archive, segments) ∧
    validateChain h.audit defaultAuditLimits archive segments = .ok state ∧
    xs = chainEntries h.audit segments

/-- The position of a log is the number of its entries and the digest of the last one. -/
theorem validateChain_position {a : AuditStore} {archive : ArchivePrefix h.audit.encoding}
    {segments : List Segment} {state : AuditState}
    (hread : readSegments h.audit defaultAuditLimits a = .ok (archive, segments))
    (hstate : validateChain h.audit defaultAuditLimits archive segments = .ok state) :
    Linked h.audit.encoding 0 none (chainEntries h.audit segments) ∧
      state.entryCount = (chainEntries h.audit segments).length ∧
      state.terminalDigest =
        terminalBehind h.audit.encoding none (chainEntries h.audit segments) := by
  unfold validateChain at hstate
  simp only [bind_eq_ok, pure_eq_ok] at hstate
  obtain ⟨scan, hvalid, rfl⟩ := hstate
  unfold validateChainRecords at hvalid
  simp only [bind_eq_ok, pure_eq_ok] at hvalid
  obtain ⟨scan', hscan, -, -, rfl⟩ := hvalid
  have hsound := soundSoFar_of_read hread hscan
  exact ⟨hsound.linked, hsound.scanned.count, hsound.terminal⟩

theorem readLog_eq_ok {archive : ArchivePrefix h.audit.encoding} {segments : List Segment} :
    readLog h s = .ok (archive, segments) ↔
      requireArchiveLineage h s = .ok () ∧
        readSegments h.audit defaultAuditLimits s.audit = .ok (archive, segments) := by
  unfold readLog
  simp only [bind_eq_ok, mapError_eq_ok]
  exact ⟨fun ⟨⟨⟩, hlineage, hread⟩ => ⟨hlineage, hread⟩, fun ⟨hlineage, hread⟩ =>
    ⟨(), hlineage, hread⟩⟩

/-- What an inspection of the log tells. -/
theorem inspectLog_eq_ok {state : AuditState} (hstate : inspectLog h s = .ok state) :
    ∃ xs, LogHas h s xs ∧ state.entryCount = xs.length ∧
      state.terminalDigest = terminalBehind h.audit.encoding none xs := by
  unfold inspectLog at hstate
  simp only [bind_eq_ok, mapError_eq_ok] at hstate
  obtain ⟨⟨archive, segments⟩, hread, hvalid⟩ := hstate
  obtain ⟨-, hsegments⟩ := readLog_eq_ok.1 hread
  obtain ⟨-, hcount, hterminal⟩ := validateChain_position hsegments hvalid
  exact ⟨_, ⟨archive, segments, state, hread, hvalid, rfl⟩, hcount, hterminal⟩

/-- The entry of a linked log with a given number ends the prefix of that length. -/
theorem Linked.find_terminal {e : Encoding} {xs : List AuditEntry} {count : Nat}
    (hlinked : Linked e 0 none xs) (hpositive : count ≠ 0) (hcount : count ≤ xs.length) :
    ∃ x, xs.find? (fun x => decide (x.sequence = count - 1)) = some x ∧
      terminalBehind e none (xs.take count) = some (auditEntryDigest e x) := by
  obtain ⟨n, rfl⟩ := Nat.exists_eq_succ_of_ne_zero hpositive
  have hlt : n < xs.length := hcount
  have hsequence : ∀ (i : Nat) (hi : i < xs.length), (xs[i]).sequence = i := by
    intro i hi
    have hget := congrArg (fun l => l[i]?) hlinked.sequence
    simp only [List.getElem?_map, List.getElem?_eq_getElem hi, Option.map_some] at hget
    rw [List.getElem?_range' (by simpa using hi)] at hget
    simpa using Option.some.inj hget
  refine ⟨xs[n], ?_, ?_⟩
  · have hsplit : xs = xs.take n ++ xs[n] :: xs.drop (n + 1) := by
      rw [List.getElem_cons_drop, List.take_append_drop]
    conv_lhs => rw [hsplit]
    rw [List.find?_append, List.find?_eq_none.2, Option.none_or]
    · exact List.find?_cons_of_pos (decide_eq_true (hsequence n hlt))
    · intro x hx hx'
      obtain ⟨i, hi, rfl⟩ := List.mem_iff_getElem.1 hx
      have hi' : i < n := by
        rw [List.length_take] at hi
        omega
      rw [List.getElem_take] at hx'
      have heq := of_decide_eq_true hx'
      rw [hsequence i (by omega)] at heq
      omega
  · rw [List.take_succ_eq_append_getElem hlt, terminalBehind_append]
    rfl

/-- The boundary is the end of a prefix of the log. -/
def Boundary (h : LineageHost) (record : LineageRecord) (xs : List AuditEntry) : Prop :=
  record.initialEntryCount ≤ xs.length ∧ record.initialTerminalEntryDigest =
    (terminalBehind h.audit.encoding none (xs.take record.initialEntryCount)).map digestDocument

theorem requireInitialLineagePrefix_eq_ok {state : AuditState} {xs : List AuditEntry} {u : Unit}
    (hchecked : record.check h = .ok ()) (hstate : state.entryCount = xs.length)
    (hlog : LogHas h s xs)
    (hrequired : requireInitialLineagePrefix h record state s = .ok u) : Boundary h record xs := by
  unfold requireInitialLineagePrefix at hrequired
  simp only [bind_eq_ok, require_eq_ok, decide_eq_true_eq] at hrequired
  obtain ⟨-, hcount, hterminal⟩ := hrequired
  rw [hstate] at hcount
  refine ⟨hcount, ?_⟩
  split at hterminal
  · -- an empty boundary has no digest
    rename_i hzero
    unfold LineageRecord.check at hchecked
    simp only [bind_eq_ok] at hchecked
    obtain ⟨-, -, -, -, -, -, -, -, -, -, -, -, -, -, hboundary⟩ := hchecked
    unfold checkBoundary at hboundary
    simp only [bind_eq_ok] at hboundary
    obtain ⟨-, -, hnone⟩ := hboundary
    rw [if_pos hzero] at hnone
    rw [Option.isNone_iff_eq_none.1 (require_eq_ok.1 hnone), hzero]
    rfl
  · rename_i hpositive
    simp only [bind_eq_ok, require_eq_ok, decide_eq_true_eq] at hterminal
    obtain ⟨terminal, hread, hequal⟩ := hterminal
    obtain ⟨archive, segments, state', hlogRead, hvalid, rfl⟩ := hlog
    obtain ⟨-, hsegments⟩ := readLog_eq_ok.1 hlogRead
    obtain ⟨hlinked, -, -⟩ := validateChain_position hsegments hvalid
    obtain ⟨x, hfind, hbehind⟩ := Linked.find_terminal hlinked hpositive hcount
    unfold auditPrefixTerminal at hread
    simp only [bind_eq_ok, mapError_eq_ok, require_eq_ok, if_neg hpositive] at hread
    obtain ⟨⟨archive', segments'⟩, hlogRead', _, -, -, -, hfound⟩ := hread
    cases hlogRead.symm.trans hlogRead'
    rw [hfind] at hfound
    rw [← hequal, ← pure_eq_ok.1 hfound, hbehind]
    rfl

/-! ## Calls -/

/-- What the checks before the first change have established. -/
structure Checked (call : LineageCall h) (s : LineageState) (found : LineageFound) : Prop where
  genesis : optionalLineage h s.genesis = .ok found.genesis
  published : optionalLineage h s.primary = .ok found.published
  consistent : found.published.isSome = true → found.genesis = found.published
  initializing : found.published = none → call.initializing = true
  history : requireRepositoryHistory h call.snapshotTags call.identity found.genesis = .ok ()
  evidence : requireEvidence call found.genesis found.published = .ok ()
  audit : inspectLog h s = .ok found.audit
  bound : requireBound call found.namespaceDigest found.audit found.genesis s = .ok ()

theorem lineageChecks_eq_ok {found : LineageFound} (hfound : lineageChecks call s = .ok found) :
    Checked call s found := by
  unfold lineageChecks at hfound
  simp only [bind_eq_ok, require_eq_ok, Bool.or_eq_true, decide_eq_true_eq, pure_eq_ok] at hfound
  obtain ⟨digest, -, genesis, hgenesis, published, hpublished, ⟨⟩, hconsistent, ⟨⟩, hinitializing,
    ⟨⟩, hhistory, ⟨⟩, hevidence, audit, haudit, ⟨⟩, hbound, rfl⟩ := hfound
  refine ⟨hgenesis, hpublished, fun hsome => ?_, fun hnone => ?_, hhistory, hevidence, haudit,
    hbound⟩
  · refine hconsistent.resolve_left fun hnone => ?_
    rw [Option.isNone_iff_eq_none.1 hnone] at hsome
    cases hsome
  · refine hinitializing.resolve_left fun hsome => ?_
    rw [show published = none from hnone] at hsome
    cases hsome

/-- Without a lineage the repository holds nothing that is reserved or protected. -/
theorem unclaimed_of_history {snapshots : List SnapshotTags} {identity : RepositoryIdentity h}
    {u : Unit} (hhistory : requireRepositoryHistory h snapshots identity none = .ok u) :
    ∀ snapshot ∈ snapshots, snapshot.claimed = false := by
  intro snapshot hsnapshot
  have hone := (forM_eq_ok.1 hhistory) snapshot hsnapshot
  unfold requireSnapshot at hone
  cases hclaimed : snapshot.claimed with
  | false => rfl
  | true =>
      rw [hclaimed] at hone
      cases hone

/-- A checked call with a lineage has found its boundary in the log. -/
theorem Checked.boundary {found : LineageFound} (hc : Checked call s found)
    (hgenesis : found.genesis = some record) :
    ∃ xs, LogHas h s xs ∧ Boundary h record xs := by
  obtain ⟨xs, hlog, hcount, -⟩ := inspectLog_eq_ok hc.audit
  have hdecode := hc.genesis
  rw [hgenesis] at hdecode
  obtain ⟨raw, -, hraw⟩ := optionalLineage_eq_some hdecode
  have hbound := hc.bound
  rw [hgenesis] at hbound
  obtain ⟨-, -, hrequired⟩ := bind_eq_ok.1 hbound
  exact ⟨xs, hlog, requireInitialLineagePrefix_eq_ok (decodeLineage_eq_ok hraw).2 hcount hlog
    hrequired⟩

/-- The genesis was created with the end of the log as its boundary. -/
structure Created (call : LineageCall h) (s t : LineageState) : Prop where
  initializing : call.initializing = true
  unclaimed : ∀ snapshot ∈ call.snapshotTags, snapshot.claimed = false
  uncommitted : call.repositoryGenesis = none ∧ call.commit = false
  absent : s.genesis = none ∧ s.primary = none
  written : ∃ record raw xs, h.encodeRecord (.object record.members) maxIdentityBytes = some raw ∧
    record.check h = .ok () ∧ t = { s with genesis := some raw } ∧ LogHas h s xs ∧
    record.initialEntryCount = xs.length ∧ Boundary h record xs

/-- The genesis was published as the primary; the repository has given it back. -/
structure Published (call : LineageCall h) (s t : LineageState) : Prop where
  committed : call.commit = true
  absent : s.primary = none
  copied : ∃ raw document, s.genesis = some raw ∧ t = { s with primary := some raw } ∧
    call.repositoryGenesis = some document ∧
    h.encodeRecord document.json maxIdentityBytes = some raw

/-- What a call returns: the record of the genesis, whose boundary is in the log. -/
structure Accepted (h : LineageHost) (s t : LineageState) (record : LineageRecord) : Prop where
  stored : ∃ raw, t.genesis = some raw ∧
    h.encodeRecord (.object record.members) maxIdentityBytes = some raw
  bounded : ∃ xs, LogHas h s xs ∧ Boundary h record xs

/-- The record that a call makes. -/
theorem freshLineage_eq_ok {found : LineageFound} (hfresh : freshLineage call found = .ok record) :
    record.check h = .ok () ∧ record.initialEntryCount = found.audit.entryCount ∧
      record.initialTerminalEntryDigest = found.audit.terminalDigest.map digestDocument := by
  unfold freshLineage at hfresh
  simp only [bind_eq_ok, pure_eq_ok] at hfresh
  obtain ⟨_, -, _, -, _, -, ⟨⟩, hcheck, rfl⟩ := hfresh
  exact ⟨hcheck, rfl, rfl⟩

/-- Evidence that was accepted is the genesis. -/
theorem evidence_of_commit {genesis published : Option LineageRecord} {u : Unit}
    (hcommit : call.commit = true)
    (hevidence : requireEvidence call genesis published = .ok u) :
    ∃ document record, call.repositoryGenesis = some document ∧ genesis = some record ∧
      document.members = record.members := by
  unfold requireEvidence at hevidence
  split at hevidence
  · rename_i document hdocument
    simp only [bind_eq_ok, require_eq_ok, decide_eq_true_eq] at hevidence
    obtain ⟨record, hrecord, hgenesis⟩ := hevidence
    exact ⟨document, record, hdocument, hgenesis, (validateLineage_eq_ok hrecord).1⟩
  · rw [hcommit] at hevidence
    simp [require_eq_ok] at hevidence

theorem evidence_of_none {published : Option LineageRecord} {u : Unit}
    (hevidence : requireEvidence call none published = .ok u) :
    call.repositoryGenesis = none ∧ call.commit = false := by
  unfold requireEvidence at hevidence
  split at hevidence
  · simp [bind_eq_ok, require_eq_ok] at hevidence
  · rename_i hnone
    refine ⟨hnone, ?_⟩
    have hboth := require_eq_ok.1 hevidence
    rw [Bool.and_eq_true, Bool.not_eq_true'] at hboth
    exact hboth.2

/-- A call changes nothing, creates the genesis or publishes the primary. -/
theorem lineageForRepository_spec (call : LineageCall h) (s : LineageState) :
    Durable.Spec s (lineageForRepository call) (fun t => Created call s t ∨ Published call s t)
      (fun record t => Accepted h s t record ∧ (t = s ∨ Created call s t ∨ Published call s t))
      fun _ t => t = s := by
  refine Durable.Spec.query_bind (fun _ _ => rfl) fun found hfound => ?_
  have hc := lineageChecks_eq_ok hfound
  cases hgenesis : found.genesis with
  | some record =>
      have hdecode := hc.genesis
      rw [hgenesis] at hdecode
      obtain ⟨raw, hraw, hrecord⟩ := optionalLineage_eq_some hdecode
      have hencoded := (decodeLineage_eq_ok hrecord).1
      simp only
      split
      · -- the primary is missing and is to be published
        rename_i hpublish
        rw [Bool.and_eq_true, Option.isNone_iff_eq_none] at hpublish
        obtain ⟨hnone, hcommit⟩ := hpublish
        refine Durable.Spec.query_bind (fun _ _ => rfl) fun raw' hraw' => ?_
        obtain rfl := bytes_of_decode hrecord hraw'
        have habsent := hc.published
        rw [hnone] at habsent
        obtain ⟨document, record', hdocument, hsame, hmembers⟩ :=
          evidence_of_commit hcommit hc.evidence
        rw [hgenesis] at hsame
        obtain rfl := Option.some.inj hsame
        have hpublished : Published call s { s with primary := some raw' } := by
          refine ⟨hcommit, optionalLineage_eq_none habsent, raw', document, hraw, rfl, hdocument, ?_⟩
          unfold JsonObject.json
          rw [hmembers]
          exact hencoded
        refine Durable.Spec.bind (M := fun _ t => t = { s with primary := some raw' })
          (Durable.Spec.effect (Or.inr hpublished) rfl) ?_
        rintro - t rfl
        exact Durable.Spec.pure
          ⟨⟨⟨raw', hraw, hencoded⟩, hc.boundary hgenesis⟩, Or.inr (Or.inr hpublished)⟩
      · exact Durable.Spec.pure ⟨⟨⟨raw, hraw, hencoded⟩, hc.boundary hgenesis⟩, Or.inl rfl⟩
  | none =>
      have hfile := hc.genesis
      rw [hgenesis] at hfile
      -- a primary without a genesis is inconsistent
      have hunpublished : found.published = none := by
        cases hpublished : found.published with
        | none => rfl
        | some record =>
            have hsame := hc.consistent (by rw [hpublished]; rfl)
            rw [hgenesis, hpublished] at hsame
            cases hsame
      have hprimary := hc.published
      rw [hunpublished] at hprimary
      have hhistory := hc.history
      rw [hgenesis] at hhistory
      have hevidence := hc.evidence
      rw [hgenesis] at hevidence
      refine Durable.Spec.query_bind (fun _ _ => rfl) fun record hrecord => ?_
      refine Durable.Spec.query_bind (fun _ _ => rfl) fun raw hraw => ?_
      obtain ⟨hcheck, hcount, hterminal⟩ := freshLineage_eq_ok hrecord
      have hencoded : h.encodeRecord (.object record.members) maxIdentityBytes = some raw :=
        orFail_eq_ok.1 hraw
      obtain ⟨xs, hlog, hlength, hend⟩ := inspectLog_eq_ok hc.audit
      have hboundary : Boundary h record xs := by
        refine ⟨(hcount.trans hlength).le, ?_⟩
        rw [hcount, hlength, List.take_length, ← hend]
        exact hterminal
      have hcreated : Created call s { s with genesis := some raw } :=
        ⟨hc.initializing hunpublished, unclaimed_of_history hhistory, evidence_of_none hevidence,
          ⟨optionalLineage_eq_none hfile, optionalLineage_eq_none hprimary⟩,
          record, raw, xs, hencoded, hcheck, rfl, hlog, hcount.trans hlength, hboundary⟩
      refine Durable.Spec.bind (M := fun _ t => t = { s with genesis := some raw })
        (Durable.Spec.effect (Or.inl hcreated) rfl) ?_
      rintro - t rfl
      exact Durable.Spec.pure
        ⟨⟨⟨raw, rfl, hencoded⟩, xs, hlog, hboundary⟩, Or.inr (Or.inl hcreated)⟩

/-! ## Runs -/

/-- A call may leave the state: a crash may stop it before or after any change. -/
def CallLeaves (call : LineageCall h) (s t : LineageState) : Prop :=
  t = s ∨ t ∈ (lineageForRepository call s).trace ∨ t = (lineageForRepository call s).state

theorem CallLeaves.cases (ht : CallLeaves call s t) :
    t = s ∨ Created call s t ∨ Published call s t := by
  have hspec := lineageForRepository_spec call s
  rcases ht with rfl | hmem | rfl
  · exact Or.inl rfl
  · exact Or.inr (hspec.visited t hmem)
  · cases hresult : (lineageForRepository call s).result with
    | ok record => exact (hspec.post record hresult).2
    | error e => exact Or.inl (hspec.raised e hresult)

/-- A call that leaves a new genesis has created it. -/
theorem CallLeaves.created (ht : CallLeaves call s t) (hnone : s.genesis = none)
    (hsome : t.genesis ≠ none) : Created call s t := by
  rcases ht.cases with rfl | hcreated | hpublished
  · exact absurd hnone hsome
  · exact hcreated
  · obtain ⟨_, _, hraw, -, -⟩ := hpublished.copied
    rw [hnone] at hraw
    cases hraw

/-- The log has grown from one state to the other. -/
def LogGrows (h : LineageHost) (s t : LineageState) : Prop :=
  ∀ xs, LogHas h s xs → ∃ ys, xs <+: ys ∧ LogHas h t ys

/-- Between the calls the log grows, and the lineage files are left alone. -/
structure Elsewhere (h : LineageHost) (s t : LineageState) : Prop where
  genesis : t.genesis = s.genesis
  primary : t.primary = s.primary
  grows : LogGrows h s t

inductive LineageStep (h : LineageHost) (s t : LineageState) : Prop where
  | called (call : LineageCall h) (leaves : CallLeaves call s t)
  | elsewhere (other : Elsewhere h s t)

abbrev LineageRun (h : LineageHost) : LineageState → LineageState → Prop :=
  Relation.ReflTransGen (LineageStep h)

/-- The primary is absent or the genesis. -/
def PrimaryCopied (s : LineageState) : Prop := s.primary = none ∨ s.primary = s.genesis

/-- Only without an archive is there anything left to create or to publish. -/
theorem readLog_absent {read : ArchivePrefix h.audit.encoding × List Segment}
    (hread : readLog h s = .ok read)
    (habsent : s.primary = none) : s.audit.archive = none := by
  obtain ⟨archive, segments⟩ := read
  obtain ⟨hlineage, -⟩ := readLog_eq_ok.1 hread
  unfold requireArchiveLineage at hlineage
  split at hlineage
  · assumption
  · unfold archiveLineage readBounded at hlineage
    rw [habsent] at hlineage
    cases hlineage

/-- The log does not depend on the lineage files while there is no archive. -/
theorem LogHas.congr {xs : List AuditEntry} (hlog : LogHas h s xs)
    (harchive : s.audit.archive = none) (haudit : t.audit = s.audit) : LogHas h t xs := by
  obtain ⟨archive, segments, state, hread, hvalid, rfl⟩ := hlog
  obtain ⟨-, hsegments⟩ := readLog_eq_ok.1 hread
  refine ⟨archive, segments, state, readLog_eq_ok.2 ⟨?_, by rwa [haudit]⟩, hvalid, rfl⟩
  unfold requireArchiveLineage
  rw [haudit, harchive]
  rfl

theorem LineageStep.grows (hstep : LineageStep h s t) : LogGrows h s t := by
  cases hstep with
  | called call leaves =>
      intro xs hlog
      refine ⟨xs, List.prefix_rfl, ?_⟩
      obtain ⟨archive, segments, state, hread, -, -⟩ := id hlog
      rcases leaves.cases with rfl | hcreated | hpublished
      · exact hlog
      · have harchive := readLog_absent hread hcreated.absent.2
        obtain ⟨_, _, _, -, -, rfl, -⟩ := hcreated.written
        exact hlog.congr harchive rfl
      · have harchive := readLog_absent hread hpublished.absent
        obtain ⟨_, _, -, rfl, -⟩ := hpublished.copied
        exact hlog.congr harchive rfl
  | elsewhere other => exact other.grows

theorem LineageRun.grows (hrun : LineageRun h s t) : LogGrows h s t := by
  induction hrun with
  | refl => exact fun xs hlog => ⟨xs, List.prefix_rfl, hlog⟩
  | tail _ hstep ih =>
      intro xs hlog
      obtain ⟨ys, hpre, hys⟩ := ih xs hlog
      obtain ⟨zs, hpre', hzs⟩ := hstep.grows ys hys
      exact ⟨zs, hpre.trans hpre', hzs⟩

theorem LineageStep.genesis {raw : Bytes} (hstep : LineageStep h s t)
    (hraw : s.genesis = some raw) :
    t.genesis = some raw := by
  cases hstep with
  | called call leaves =>
      rcases leaves.cases with rfl | hcreated | hpublished
      · exact hraw
      · rw [hcreated.absent.1] at hraw
        cases hraw
      · obtain ⟨_, _, -, rfl, -⟩ := hpublished.copied
        exact hraw
  | elsewhere other => exact other.genesis.trans hraw

theorem LineageRun.genesis {raw : Bytes} (hrun : LineageRun h s t) (hraw : s.genesis = some raw) :
    t.genesis = some raw := by
  induction hrun with
  | refl => exact hraw
  | tail _ hstep ih => exact hstep.genesis ih

theorem LineageStep.copied (hstep : LineageStep h s t) (hs : PrimaryCopied s) :
    PrimaryCopied t := by
  cases hstep with
  | called call leaves =>
      rcases leaves.cases with rfl | hcreated | hpublished
      · exact hs
      · obtain ⟨_, _, _, -, -, rfl, -⟩ := hcreated.written
        exact Or.inl hcreated.absent.2
      · obtain ⟨_, _, hraw, rfl, -⟩ := hpublished.copied
        exact Or.inr hraw.symm
  | elsewhere other =>
      rcases hs with hnone | hsame
      · exact Or.inl (other.primary.trans hnone)
      · exact Or.inr (other.primary.trans (hsame.trans other.genesis.symm))

theorem LineageRun.copied (hrun : LineageRun h s t) (hs : PrimaryCopied s) : PrimaryCopied t := by
  induction hrun with
  | refl => exact hs
  | tail _ hstep ih => exact hstep.copied ih

/-- A call that is accepted later finds the log of the creation as a prefix of its own. -/
theorem created_prefix {s t u : LineageState} (hcreated : Created call s t)
    (hrun : LineageRun h t u) {later : LineageCall h}
    (haccepted : (lineageForRepository later u).result = .ok record) :
    ∃ xs ys, LogHas h s xs ∧ record.initialEntryCount = xs.length ∧ LogHas h u ys ∧ xs <+: ys := by
  obtain ⟨created, raw, xs, hencoded, -, rfl, hlog, hcount, -⟩ := hcreated.written
  have hgenesis : u.genesis = some raw := hrun.genesis rfl
  obtain ⟨⟨⟨raw', hstored, hraw'⟩, -⟩, hstate⟩ :=
    (lineageForRepository_spec later u).post record haccepted
  have hkept : (lineageForRepository later u).state.genesis = some raw := by
    rcases hstate with hsame | hagain | hpublished
    · rw [hsame]
      exact hgenesis
    · rw [hagain.absent.1] at hgenesis
      cases hgenesis
    · obtain ⟨_, _, -, hsame, -⟩ := hpublished.copied
      rw [hsame]
      exact hgenesis
  rw [hkept] at hstored
  obtain rfl := Option.some.inj hstored
  obtain ⟨archive, segments, state, hread, -, -⟩ := id hlog
  obtain ⟨ys, hextends, hgrown⟩ :=
    hrun.grows xs (hlog.congr (readLog_absent hread hcreated.absent.2) rfl)
  exact ⟨xs, ys, hlog, (boundary_of_bytes hraw' hencoded).trans hcount, hgrown, hextends⟩

/-- An append is one way in which the log grows. -/
theorem elsewhere_of_append {capacity : FilesystemCapacity} {entry : AuditEntry}
    {administrator : Bool} {plan : AuditAppendPlan}
    (hplan : planAppend h.audit defaultAuditLimits capacity entry administrator s.audit = .ok plan)
    (hfresh : Fresh h.audit defaultAuditLimits s.audit entry.correlationId) :
    Elsewhere h s { s with audit := s.audit.write plan } := by
  refine ⟨rfl, rfl, fun xs hlog => ?_⟩
  obtain ⟨archive, segments, state, hread, hvalid, rfl⟩ := hlog
  obtain ⟨hlineage, hsegments⟩ := readLog_eq_ok.1 hread
  obtain ⟨archive', segments', scan, headroom, hp⟩ := planAppend_eq_ok.1 hplan
  cases hsegments.symm.trans hp.read
  obtain ⟨r, hverified⟩ := verifyAppend_write hplan hfresh
  obtain ⟨hinspected, -, -⟩ := verifyAppend_position hplan hverified
  unfold inspectAudit at hinspected
  rw [hp.read_write] at hinspected
  refine ⟨_, ?_, archive, _, r.state, readLog_eq_ok.2 ⟨hlineage, hp.read_write⟩, hinspected, rfl⟩
  rw [chainEntries_appended hp.read hp.target hp.scanned]
  exact List.prefix_append _ _

/-- What holds of every sequence of calls with any arguments, each of which a crash may stop after
any durable write, while the log grows in between. -/
structure InitializedOnce (h : LineageHost) : Prop where
  /-- An existing genesis never changes. -/
  genesisKept : ∀ s t raw, LineageRun h s t → s.genesis = some raw → t.genesis = some raw
  /-- The primary is absent or has the bytes of the genesis. -/
  primaryCopied : ∀ s t, LineageRun h s t → PrimaryCopied s → PrimaryCopied t
  /-- A genesis is created only if no snapshot is reserved or protected. -/
  genesisCreated : ∀ s t (call : LineageCall h), CallLeaves call s t → s.genesis = none →
    t.genesis ≠ none → ∀ snapshot ∈ call.snapshotTags, snapshot.claimed = false
  /-- The primary is published only for evidence that has the bytes of the genesis. -/
  primaryPublished : ∀ s t (call : LineageCall h) raw, CallLeaves call s t → s.primary = none →
    t.primary = some raw → s.genesis = some raw ∧ ∃ document, call.repositoryGenesis =
      some document ∧ h.encodeRecord document.json maxIdentityBytes = some raw
  /-- A call that returns has found the recorded boundary in the log. -/
  boundaryFound : ∀ s (call : LineageCall h) record, (lineageForRepository call s).result =
    .ok record → Accepted h s (lineageForRepository call s).state record
  /-- What the log was when the genesis was created is its prefix in every later accepted call. -/
  boundaryKept : ∀ s t u (call later : LineageCall h) record, CallLeaves call s t →
    s.genesis = none → t.genesis ≠ none → LineageRun h t u →
      (lineageForRepository later u).result = .ok record →
        ∃ xs ys, LogHas h s xs ∧ record.initialEntryCount = xs.length ∧ LogHas h u ys ∧ xs <+: ys

/-- A lineage is initialized once. -/
theorem lineage_initialized_once (h : LineageHost) : InitializedOnce h where
  genesisKept _ _ _ hrun hraw := hrun.genesis hraw
  primaryCopied _ _ hrun hs := hrun.copied hs
  genesisCreated s t call hleaves hnone hsome := (hleaves.created hnone hsome).unclaimed
  primaryPublished s t call raw hleaves hnone hsome := by
    rcases hleaves.cases with rfl | hcreated | hpublished
    · rw [hnone] at hsome
      cases hsome
    · obtain ⟨_, _, _, -, -, rfl, -⟩ := hcreated.written
      rw [show s.primary = none from hnone] at hsome
      cases hsome
    · obtain ⟨raw', document, hraw, rfl, hdocument, hencoded⟩ := hpublished.copied
      obtain rfl := Option.some.inj hsome
      exact ⟨hraw, document, hdocument, hencoded⟩
  boundaryFound s call record hresult :=
    ((lineageForRepository_spec call s).post record hresult).1
  boundaryKept _ _ _ _ _ _ hleaves hnone hsome hrun haccepted :=
    created_prefix (hleaves.created hnone hsome) hrun haccepted

/-- A host without S3 repositories. -/
noncomputable def sampleLineageHost : LineageHost where
  toCanonicalText := AsciiJson.asciiText
  sha256 := numeral
  urlsplit _ := none
  isSpace c := decide (c = ' ')
  namespaceContract _ := true
  audit := ⟨tableEncoding [], .exact, fun _ => 0, 0⟩

-- `splitOn` recurses on positions, so that its steps are taken one by one
theorem samplePath_parts : pathParts "/r" = ["r"] := by
  have hslash : "/r".splitOn "/" = "/r".splitOnAux "/" ⟨1⟩ ⟨1⟩ 0 [""] := by
    unfold String.splitOn
    rw [if_neg (by decide), String.splitOnAux, if_neg (by decide +kernel)]
    rfl
  unfold pathParts
  rw [hslash, String.splitOnAux, if_neg (by decide +kernel), if_neg (by decide +kernel),
    String.splitOnAux, if_pos (by decide +kernel)]
  decide +kernel

noncomputable def sampleRepository : RepositoryIdentity sampleLineageHost where
  configId := sha256Text 7
  nodeName := "h"
  locator := "/r"
  accepted := by
    have hlocator : canonicalLocator sampleLineageHost "/r" = .ok "/r" := by
      have hlocal : localLocator "/r" = .ok "/r" := by
        unfold localLocator
        rw [samplePath_parts]
        decide +kernel
      unfold canonicalLocator
      rw [hlocal]
      decide +kernel
    unfold IdentityDocument.check
    simp only [hlocator]
    decide +kernel

/-- A platform with an empty log and no lineage. -/
noncomputable def sampleUninitialized : LineageState where
  platformNamespace := sampleLineageHost.encodeRecord (.object [("kind", .string "Namespace")]) 64
  genesis := none
  primary := none
  audit := ⟨none, Directory.empty⟩

noncomputable def sampleInitialization : LineageCall sampleLineageHost where
  identity := sampleRepository
  snapshotTags := []
  initializing := true
  repositoryGenesis := none
  commit := false
  now := 0
  entropy := 0

/-- The record of the empty log. -/
noncomputable def sampleLineage : LineageRecord where
  lineageId := "00000000-0000-7000-8000-000000000000"
  repository := sampleRepository.toIdentityDocument
  repositoryBinding := framedDigest sampleLineageHost.toBackupHost bindingFormat
    ((sampleLineageHost.encodeRecord sampleRepository.json maxCanonicalBytes).getD [])
  namespaceDigest :=
    let raw := sampleUninitialized.platformNamespace.getD []
    ⟨"lowerduckpond-platform-state-v1", sha256Text (numeral
      (ascii "lowerduckpond-platform-state-v1" ++ 0 :: bigEndian4 raw.length ++ raw))⟩
  initializedAt := "1970-01-01T00:00:00Z"
  initialEntryCount := 0
  initialTerminalEntryDigest := none

theorem sampleLineage_fresh {found : LineageFound}
    (hdigest : found.namespaceDigest = sampleLineage.namespaceDigest)
    (hcount : found.audit.entryCount = 0) (hterminal : found.audit.terminalDigest = none) :
    freshLineage sampleInitialization found = .ok sampleLineage := by
  have hcheck : sampleLineage.check sampleLineageHost = .ok () := by
    unfold LineageRecord.check
    rw [show sampleLineage.repository.check sampleLineageHost = .ok () from
      sampleRepository.accepted]
    decide +kernel
  have hid : generateUuid7 0 0 = .ok sampleLineage.lineageId := by decide +kernel
  have hbinding : sampleRepository.binding sampleLineageHost =
      .ok sampleLineage.repositoryBinding := by decide +kernel
  have htime : utcText 0 = some sampleLineage.initializedAt := by decide +kernel
  unfold freshLineage
  rw [hdigest, hcount, hterminal]
  simp only [bind_eq_ok, pure_eq_ok]
  refine ⟨_, hid, _, hbinding, _, orFail_eq_ok.2 htime, (), hcheck, rfl⟩

/-- The first call records the end of the empty log. -/
theorem sampleInitialization_accepted :
    Accepted sampleLineageHost sampleUninitialized
      (lineageForRepository sampleInitialization sampleUninitialized).state sampleLineage := by
  have hchecks : (lineageChecks sampleInitialization sampleUninitialized).toOption.map
      (fun found => (found.genesis, found.namespaceDigest, found.audit.entryCount,
        found.audit.terminalDigest)) = some (none, sampleLineage.namespaceDigest, 0, none) := by
    decide +kernel
  refine (lineage_initialized_once sampleLineageHost).boundaryFound _ _ _ ?_
  cases hfound : lineageChecks sampleInitialization sampleUninitialized with
  | error e =>
      rw [hfound] at hchecks
      cases hchecks
  | ok found =>
      rw [hfound] at hchecks
      simp only [Except.toOption, Option.map_some, Option.some.injEq, Prod.mk.injEq] at hchecks
      obtain ⟨hgenesis, hdigest, hcount, hterminal⟩ := hchecks
      have hraw : (LineageRecord.bytes (h := sampleLineageHost) sampleLineage).isOk = true := by
        decide +kernel
      unfold lineageForRepository
      rw [Durable.query_bind_ok hfound, hgenesis]
      simp only
      have hfresh := sampleLineage_fresh hdigest hcount hterminal
      rw [Durable.query_bind_ok (f := fun _ => freshLineage sampleInitialization found) hfresh]
      cases hbytes : LineageRecord.bytes (h := sampleLineageHost) sampleLineage with
      | error e =>
          rw [hbytes] at hraw
          cases hraw
      | ok raw => rfl

end StaticHostAgent.Backup
