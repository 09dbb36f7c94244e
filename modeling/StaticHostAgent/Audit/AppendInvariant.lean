import StaticHostAgent.Audit.Segments

/-!
# Appending keeps the chain readable

A planned append puts exactly one entry behind the entries of the chain (`chainEntries_appended`).
If no entry of the chain carries its correlation, every read that the chain passed before is passed
after the write (`Readable.write`), and the check that the append makes itself succeeds.
-/

set_option autoImplicit false

namespace StaticHostAgent.Audit

open Library Contracts Host

variable {host : AuditHost} {limits : AuditLimits}
  {a : AuditStore} {archive : ArchivePrefix host.encoding} {segments : List Segment}
  {query : ChainQuery} {scan scan' : ChainScan} {x : AuditEntry} {plan : AuditAppendPlan}
  {capacity : FilesystemCapacity} {administrator : Bool}

/-! ## The pass over the appended segments -/

theorem scanLine_allocated {headed archived : Bool} {line : Bytes} (n : Nat)
    (h : scanLine host query headed archived scan line = .ok scan') :
    scanLine host query headed archived (scan.allocate n) line = .ok (scan'.allocate n) := by
  obtain ⟨x, hx, rfl⟩ := scanLine_eq_ok.1 h
  exact scanLine_eq_ok.2 ⟨x, ⟨hx.size, hx.decoded, hx.proved, hx.uncorrelated, hx.unmatched⟩, rfl⟩

/-- The lines are scanned alike whatever was allocated before. -/
theorem scanLines_allocated {headed archived : Bool} {lines : List Bytes} (n : Nat)
    (h : lines.foldlM (scanLine host query headed archived) scan = .ok scan') :
    lines.foldlM (scanLine host query headed archived) (scan.allocate n) =
      .ok (scan'.allocate n) := by
  induction lines generalizing scan with
  | nil =>
      rw [List.foldlM_nil, pure_eq_ok] at h
      rw [h]
      rfl
  | cons line lines ih =>
      rw [List.foldlM_cons, bind_eq_ok] at h ⊢
      obtain ⟨next, hline, hlines⟩ := h
      exact ⟨_, scanLine_allocated n hline, ih hlines⟩

theorem canonical_clean_of_scan {headed : Bool} {lines : List Bytes}
    (h : lines.foldlM (scanLine host query headed false) scan = .ok scan') :
    ∀ line ∈ lines, CleanLine line := by
  intro line hline
  obtain ⟨x, -, hcanonical⟩ := scanLines_canonical h line hline
  rw [← hcanonical]
  exact host.encoding.canonical_clean _

/-- Nothing vouches for the last segment of a chain, nor for the one after it. -/
theorem vouchedDescriptor_eq_none {number : Nat} (hlocal : archive.segments.length ≤ number)
    (hlast : segments.length ≤ number + 1)
    (h : requirePendingLocalSegment host archive segments = .ok ()) :
    vouchedDescriptor host archive number = none := by
  unfold vouchedDescriptor
  rw [List.getElem?_eq_none hlocal]
  unfold requirePendingLocalSegment at h
  cases hintent : archive.rotationIntent with
  | none => rfl
  | some descriptor =>
      rw [hintent] at h
      have hne : descriptor.segmentNumber ≠ number := by
        rintro rfl
        simp only at h
        rw [if_neg (not_lt.2 hlocal)] at h
        cases hsegment : segments[descriptor.segmentNumber]? with
        | none =>
            rw [hsegment] at h
            cases h
        | some segment =>
            rw [hsegment] at h
            simp only [bind_eq_ok, require_eq_ok, Bool.and_eq_true, decide_eq_true_eq] at h
            obtain ⟨-, ⟨hnext, -⟩, -⟩ := h
            omega
      simp [hne]

/-- The entry an append extends the pass with. -/
structure Extends (host : AuditHost) (query : ChainQuery) (scan : ChainScan) (x : AuditEntry) :
    Prop where
  valid : ValidContract host.encoding (.auditEntry x)
  sequence : x.sequence = scan.sequence
  previous : x.previousEntryDigest = scan.terminal
  uncorrelated : x.correlationId ∉ scan.archivedCorrelations
  unmatched : query.correlationId = some x.correlationId → scan.matchingEntry = none

/-- The pass behind an appended entry. -/
structure Extended (host : AuditHost) (scan scan' : ChainScan) (x : AuditEntry) (n : Nat) : Prop where
  sequence : scan'.sequence = scan.sequence + 1
  terminal : scan'.terminal = some (auditEntryDigest host.encoding x)
  allocated : scan'.allocated ≤ scan.allocated + n

theorem Extends.allocate (h : Extends host query scan x) (n : Nat) :
    Extends host query (scan.allocate n) x :=
  ⟨h.valid, h.sequence, h.previous, h.uncorrelated, h.unmatched⟩

/-- A pass closed without a descriptor is extended like the open one. -/
theorem Extends.open {bytes : Nat} (h : Extends host query (scan.close none bytes) x) :
    Extends host query scan x :=
  ⟨h.valid, h.sequence, h.previous, h.uncorrelated, h.unmatched⟩

theorem Extends.accepted {headed : Bool} (h : Extends host query scan x) :
    LineAccepted host query headed false scan (host.encoding.canonical (.auditEntry x)) x :=
  .of_valid h.valid h.sequence h.previous (fun _ => h.uncorrelated) h.unmatched

/-- An entry behind the lines of a local segment. -/
theorem scanSegment_append {before scan : ChainScan} {number : Nat} {data : Bytes} {m : Nat}
    (hvouched : vouchedDescriptor host archive number = none)
    (h : scanSegment host limits query archive before ⟨number, data, m, false⟩ = .ok scan)
    (hx : Extends host query scan x) (n : Nat) :
    ∃ scan', scanSegment host limits query archive before
        ⟨number, data ++ host.encoding.canonical (.auditEntry x), n, false⟩ = .ok scan' ∧
      Extended host scan scan' x n := by
  obtain ⟨ha, scanned, hlines, rfl⟩ := scanSegment_eq_ok.1 h
  rw [hvouched] at hx
  rw [hvouched] at hlines
  have hclean := host.encoding.canonical_clean (.auditEntry x)
  have hsplit : splitLines (data ++ host.encoding.canonical (.auditEntry x)) =
      splitLines data ++ [host.encoding.canonical (.auditEntry x)] :=
    splitLines_append_clean (canonical_clean_of_scan hlines) hclean
  -- the segment has a first line already, so the entry does not change how it is packed
  have hfirst : splitLines data ≠ [] := by
    intro hnil
    have hflat := flatten_splitLines data
    rw [hnil] at hflat
    have hclosed := ha.closed
    rw [← hflat] at hclosed
    cases hclosed
  have hstart := scanLines_allocated (before.allocated + n) hlines
  have hlast : scanLine host query archive.head.isSome false
      (scanned.allocate (before.allocated + n)) (host.encoding.canonical (.auditEntry x)) =
        .ok ((scanned.allocate (before.allocated + n)).advance host.encoding query
          archive.head.isSome false x) :=
    scanLine_eq_ok.2 ⟨x, (hx.open.allocate _).accepted, rfl⟩
  refine ⟨_, scanSegment_eq_ok.2 ⟨⟨?_, ?_, ?_⟩,
    (scanned.allocate (before.allocated + n)).advance host.encoding query archive.head.isSome
      false x, ?_, rfl⟩, ?_⟩
  · rw [List.getLast?_append, hclean.endsWith]
    rfl
  · intro previous hprevious
    have hpacked := ha.packed previous hprevious
    simp only at hpacked
    rw [hsplit, List.head?_append_of_ne_nil _ hfirst]
    exact hpacked
  · intro d hd
    rw [hvouched] at hd
    cases hd
  · rw [hvouched, hsplit]
    exact foldlM_append_eq_ok.2 ⟨_, hstart, foldlM_singleton.2 hlast⟩
  · refine ⟨?_, ?_, ?_⟩
    · rw [hvouched]
      rfl
    · rw [hvouched]
      rfl
    · have hallocated := scanLines_allocated_eq hlines
      show before.allocated + n ≤ scanned.allocated + n
      rw [hallocated]
      show before.allocated + n ≤ before.allocated + m + n
      omega

/-- An entry in a segment of its own. -/
theorem scanSegment_create {number : Nat} (hvouched : vouchedDescriptor host archive number = none)
    (hx : Extends host query scan x)
    (hpacked : ∀ previous, scan.previousSegmentBytes = some previous →
      limits.maximumSegmentBytes <
        previous + (host.encoding.canonical (.auditEntry x)).length) (n : Nat) :
    ∃ scan', scanSegment host limits query archive scan
        ⟨number, host.encoding.canonical (.auditEntry x), n, false⟩ = .ok scan' ∧
      Extended host scan scan' x n := by
  have hclean := host.encoding.canonical_clean (.auditEntry x)
  have hsplit : splitLines (host.encoding.canonical (.auditEntry x)) =
      [host.encoding.canonical (.auditEntry x)] := by
    have := splitLines_clean_append hclean []
    rwa [List.append_nil] at this
  have hlast : scanLine host query archive.head.isSome false
      (scan.allocate (scan.allocated + n)) (host.encoding.canonical (.auditEntry x)) =
        .ok ((scan.allocate (scan.allocated + n)).advance host.encoding query
          archive.head.isSome false x) :=
    scanLine_eq_ok.2 ⟨x, (hx.allocate _).accepted, rfl⟩
  refine ⟨_, scanSegment_eq_ok.2 ⟨⟨hclean.endsWith, ?_, ?_⟩,
    (scan.allocate (scan.allocated + n)).advance host.encoding query archive.head.isSome false x,
    ?_, rfl⟩, ?_⟩
  · intro previous hprevious
    rw [hsplit]
    exact hpacked previous hprevious
  · intro d hd
    rw [hvouched] at hd
    cases hd
  · rw [hvouched, hsplit]
    exact foldlM_singleton.2 hlast
  · refine ⟨?_, ?_, le_rfl⟩
    · rw [hvouched]
      rfl
    · rw [hvouched]
      rfl

/-- An append rewrites the last segment, which is local and not vouched for, or adds one behind a
segment that has no room. -/
theorem appendedSegments_cases {canonical : Bytes}
    (hread : readSegments host limits a = .ok (archive, segments))
    (htarget : appendTarget limits segments canonical =
      .ok (plan.target, plan.payload, plan.replace)) :
    (∃ init number data, segments = init ++ [localSegment host number data] ∧
        vouchedDescriptor host archive number = none ∧ plan.payload = data ++ canonical ∧
        appendedSegments host segments plan.target plan.payload plan.replace =
          init ++ [localSegment host number plan.payload]) ∨
      (vouchedDescriptor host archive segments.length = none ∧ plan.payload = canonical ∧
        appendedSegments host segments plan.target plan.payload plan.replace =
          segments ++ [localSegment host segments.length plan.payload] ∧
        ∀ last, segments.getLast? = some last →
          limits.maximumSegmentBytes < last.data.length + canonical.length) := by
  obtain ⟨scan, hr, rfl⟩ := readSegments_eq_ok.1 hread
  have hcovers := hr.localScanned.covers
  rcases appendTarget_eq_ok.1 htarget with
    ⟨last, hlast, hreplace, hnumber, hdata, -⟩ | ⟨hreplace, hnumber, hdata, -, hfull⟩
  · left
    have hne : scan.segments ≠ [] := by
      intro hnil
      rw [hnil] at hlast
      cases hlast
    obtain ⟨init, before, number, data, -, -, -, hbeyond, hsegments⟩ := hr.last_local hne
    have hposition : number + 1 = scan.segments.length := by
      have hnumbered := hr.localScanned.numbered
      rw [hsegments, List.map_append, List.length_append, List.length_singleton,
        List.range_succ] at hnumbered
      have hlasts := (List.append_inj' hnumbered rfl).2
      rw [hsegments, List.length_append, List.length_singleton]
      simpa [localSegment] using hlasts
    have hlasteq : last = localSegment host number data := by
      rw [hsegments, List.getLast?_append] at hlast
      exact (Option.some.inj hlast).symm
    refine ⟨before.segments, number, data, hsegments, ?_, ?_, ?_⟩
    · exact vouchedDescriptor_eq_none (by omega) (by omega) hr.pending
    · rw [hdata, hlasteq]
      rfl
    · rw [appendedSegments, hreplace, if_pos rfl, hsegments, List.dropLast_concat, hnumber, hlasteq]
      rfl
  · right
    refine ⟨vouchedDescriptor_eq_none hcovers (Nat.le_succ _) hr.pending, hdata, ?_, hfull⟩
    rw [appendedSegments, hreplace, if_neg (by simp), hnumber]

/-- The pass over the appended segments. -/
theorem scanChain_append (hread : readSegments host limits a = .ok (archive, segments))
    (htarget : appendTarget limits segments (host.encoding.canonical (.auditEntry x)) =
      .ok (plan.target, plan.payload, plan.replace))
    (h : scanChain host limits query archive segments = .ok scan)
    (hx : Extends host query scan x) :
    ∃ scan', scanChain host limits query archive
        (appendedSegments host segments plan.target plan.payload plan.replace) = .ok scan' ∧
      Extended host scan scan' x (host.allocation.allocated plan.payload.length) := by
  have hspec := scanChain_spec h
  unfold scanChain at h ⊢
  rcases appendedSegments_cases hread htarget with
    ⟨init, number, data, hsegments, hvouched, hpayload, happended⟩ |
      ⟨hvouched, hpayload, happended, hfull⟩
  · rw [hsegments] at h
    obtain ⟨before, hinit, hstep⟩ := foldlM_append_eq_ok.1 h
    obtain ⟨scan', hscan', hextended⟩ := scanSegment_append hvouched (foldlM_singleton.1 hstep) hx
      (host.allocation.allocated plan.payload.length)
    rw [← hpayload] at hscan'
    refine ⟨scan', ?_, hextended⟩
    rw [happended]
    exact foldlM_append_eq_ok.2 ⟨before, hinit, foldlM_singleton.2 hscan'⟩
  · have hpacked : ∀ previous, scan.previousSegmentBytes = some previous →
        limits.maximumSegmentBytes <
          previous + (host.encoding.canonical (.auditEntry x)).length := by
      intro previous hprevious
      rw [hspec.2.2] at hprevious
      obtain ⟨last, hlast, rfl⟩ := Option.map_eq_some_iff.1 hprevious
      exact hfull last hlast
    obtain ⟨scan', hscan', hextended⟩ := scanSegment_create hvouched hx hpacked
      (host.allocation.allocated plan.payload.length)
    rw [← hpayload] at hscan'
    refine ⟨scan', ?_, hextended⟩
    rw [happended]
    exact foldlM_append_eq_ok.2 ⟨scan, h, foldlM_singleton.2 hscan'⟩

/-- An append puts exactly one entry behind the entries of the chain. -/
theorem chainEntries_appended (hread : readSegments host limits a = .ok (archive, segments))
    (htarget : appendTarget limits segments (host.encoding.canonical (.auditEntry x)) =
      .ok (plan.target, plan.payload, plan.replace))
    (h : scanChain host limits .none archive segments = .ok scan) :
    chainEntries host (appendedSegments host segments plan.target plan.payload plan.replace) =
      chainEntries host segments ++ [x] := by
  have hclean := host.encoding.canonical_clean (.auditEntry x)
  have hentry : lineEntry host (host.encoding.canonical (.auditEntry x)) = some x := by
    unfold lineEntry
    rw [host.encoding.decode_canonical]
  rcases appendedSegments_cases hread htarget with
    ⟨init, number, data, hsegments, hvouched, hpayload, happended⟩ | ⟨-, hpayload, happended, -⟩
  · unfold scanChain at h
    rw [hsegments] at h
    obtain ⟨before, -, hstep⟩ := foldlM_append_eq_ok.1 h
    obtain ⟨-, scanned, hlines, -⟩ := scanSegment_eq_ok.1 (foldlM_singleton.1 hstep)
    rw [show vouchedDescriptor host archive (localSegment host number data).number = none from
      hvouched] at hlines
    have hsplit : splitLines (data ++ host.encoding.canonical (.auditEntry x)) =
        splitLines data ++ [host.encoding.canonical (.auditEntry x)] :=
      splitLines_append_clean (canonical_clean_of_scan hlines) hclean
    rw [happended, hsegments, chainEntries_eq, chainEntries_eq, hpayload]
    simp [localSegment, hsplit, hentry]
  · have hsplit : splitLines (host.encoding.canonical (.auditEntry x)) =
        [host.encoding.canonical (.auditEntry x)] := by
      have := splitLines_clean_append hclean []
      rwa [List.append_nil] at this
    rw [happended, chainEntries_eq, chainEntries_eq, hpayload]
    simp [localSegment, hsplit, hentry]

/-! ## Plans -/

/-- What a plan has proved. -/
structure Planned (host : AuditHost) (limits : AuditLimits) (capacity : FilesystemCapacity)
    (x : AuditEntry) (administrator : Bool) (a : AuditStore) (plan : AuditAppendPlan)
    (archive : ArchivePrefix host.encoding) (segments : List Segment) (scan : ChainScan)
    (headroom : Nat) : Prop where
  valid : ValidContract host.encoding (.auditEntry x)
  read : readSegments host limits a = .ok (archive, segments)
  scanned : scanChain host limits .none archive segments = .ok scan
  bounded : scan.allocated ≤ limits.maximumAdministratorBytes
  state : plan.state = scan.state segments
  sequence : x.sequence = scan.sequence
  previous : x.previousEntryDigest = scan.terminal
  target : appendTarget limits segments (host.encoding.canonical (.auditEntry x)) =
    .ok (plan.target, plan.payload, plan.replace)
  admitted : appendHeadroom host capacity archive plan.payload scan.sequence administrator =
    .ok headroom
  ceiling : scan.allocated + appendAllocation host plan.payload + headroom ≤
    if administrator then limits.maximumAdministratorBytes else limits.maximumOrdinaryBytes

theorem planAppend_eq_ok :
    planAppend host limits capacity x administrator a = .ok plan ↔
      ∃ archive segments scan headroom,
        Planned host limits capacity x administrator a plan archive segments scan headroom := by
  unfold planAppend planAuditAppend validateChain validateChainRecords admitCapacity
  simp only [bind_eq_ok, liftContract_eq_ok, validateContract_eq_ok, require_eq_ok,
    decide_eq_true_eq, pure_eq_ok]
  constructor
  · rintro ⟨canonical, ⟨hvalid, rfl⟩, ⟨archive, segments⟩, hread, state,
      ⟨scan, ⟨scan', hscan, -, hbounded, rfl⟩, rfl⟩, -, hsequence, -, hprevious,
      ⟨target, payload, replace⟩, htarget, headroom, hadmitted, -, hceiling, rfl⟩
    exact ⟨archive, segments, scan', headroom, hvalid, hread, hscan, hbounded, rfl, hsequence,
      hprevious, htarget, hadmitted, hceiling⟩
  · rintro ⟨archive, segments, scan, headroom, h⟩
    obtain ⟨state, target, payload, replace⟩ := plan
    obtain rfl : state = scan.state segments := h.state
    exact ⟨_, ⟨h.valid, rfl⟩, (archive, segments), h.read, _,
      ⟨scan, ⟨scan, h.scanned, (), h.bounded, rfl⟩, rfl⟩, (), h.sequence, (), h.previous,
      (target, payload, replace), h.target, headroom, h.admitted, (), h.ceiling, rfl⟩

/-- The administrator ceiling covers every ceiling of the planner. -/
theorem ceiling_le_administrator (limits : AuditLimits) (administrator : Bool) :
    (if administrator then limits.maximumAdministratorBytes else limits.maximumOrdinaryBytes) ≤
      limits.maximumAdministratorBytes := by
  cases administrator with
  | true => exact le_rfl
  | false => exact Nat.le_add_right _ _

variable (host) in
theorem allocated_le_appendAllocation (payload : Bytes) :
    host.allocation.allocated payload.length ≤ appendAllocation host payload :=
  (host.allocation.allocated_le_upper payload.length).trans (Nat.le_add_right _ _)

/-- Reading after the write finds the appended segments. -/
theorem Planned.read_write {headroom : Nat}
    (h : Planned host limits capacity x administrator a plan archive segments scan headroom) :
    readSegments host limits (a.write plan) =
      .ok (archive, appendedSegments host segments plan.target plan.payload plan.replace) := by
  have hceiling := h.ceiling.trans (ceiling_le_administrator limits administrator)
  have hallocated := allocated_le_appendAllocation host plan.payload
  have hsum := (scanChain_spec h.scanned).2.1
  refine readSegments_write h.read h.target (host.encoding.canonical_clean _).ne_nil
    (h.valid.2.2.trans limits.segment_admits_entry) ?_
  omega

/-- A call that plans nothing changes nothing. -/
theorem appendAudit_unplanned {outcome : WriteOutcome} {entry : AuditEntry} {error : AgentError}
    (h : planAppend host limits capacity entry administrator a = .error error) :
    appendAudit host limits outcome capacity entry administrator a = ⟨[], a, .error error⟩ :=
  Durable.query_bind_error h

/-- A write that goes through is checked with the whole chain. -/
theorem appendAudit_written {entry : AuditEntry}
    (h : planAppend host limits capacity entry administrator a = .ok plan) :
    appendAudit host limits .written capacity entry administrator a =
      ⟨[a.write plan], a.write plan,
        verifyAppend host limits entry administrator (a.write plan)⟩ := by
  unfold appendAudit
  rw [Durable.query_bind_ok h]
  rfl

theorem appendAudit_refused {entry : AuditEntry} {error : AgentError}
    (h : planAppend host limits capacity entry administrator a = .ok plan) :
    appendAudit host limits (.refused error) capacity entry administrator a =
      ⟨[], a, .error error⟩ := by
  unfold appendAudit
  rw [Durable.query_bind_ok h]
  rfl

/-- A write that raises behind its rename leaves the planned segment. -/
theorem appendAudit_placed {entry : AuditEntry} {error : AgentError}
    (h : planAppend host limits capacity entry administrator a = .ok plan) :
    appendAudit host limits (.placed error) capacity entry administrator a =
      ⟨[a.write plan], a.write plan, .error error⟩ := by
  unfold appendAudit
  rw [Durable.query_bind_ok h]
  rfl

/-- A call whose write goes through stops at its plan, or writes the planned segment and checks the
chain. -/
theorem appendAudit_run (capacity : FilesystemCapacity) (entry : AuditEntry) (administrator : Bool)
    (a : AuditStore) :
    (∃ error, planAppend host limits capacity entry administrator a = .error error ∧
        appendAudit host limits .written capacity entry administrator a = ⟨[], a, .error error⟩) ∨
      ∃ plan, planAppend host limits capacity entry administrator a = .ok plan ∧
        appendAudit host limits .written capacity entry administrator a =
          ⟨[a.write plan], a.write plan,
            verifyAppend host limits entry administrator (a.write plan)⟩ := by
  cases hplan : planAppend host limits capacity entry administrator a with
  | error error => exact Or.inl ⟨error, rfl, appendAudit_unplanned hplan⟩
  | ok plan => exact Or.inr ⟨plan, rfl, appendAudit_written hplan⟩

/-- The plan does not depend on the filesystem. -/
theorem planAppend_unique {capacity capacity' : FilesystemCapacity}
    {administrator administrator' : Bool} {plan plan' : AuditAppendPlan}
    (h : planAppend host limits capacity x administrator a = .ok plan)
    (h' : planAppend host limits capacity' x administrator' a = .ok plan') : plan' = plan := by
  obtain ⟨archive, segments, scan, headroom, hp⟩ := planAppend_eq_ok.1 h
  obtain ⟨archive', segments', scan', headroom', hp'⟩ := planAppend_eq_ok.1 h'
  have hread := hp.read.symm.trans hp'.read
  cases hread
  have hscan := hp.scanned.symm.trans hp'.scanned
  cases hscan
  have htarget := hp.target.symm.trans hp'.target
  obtain ⟨state, target, payload, replace⟩ := plan
  obtain ⟨state', target', payload', replace'⟩ := plan'
  cases htarget
  rw [show state = _ from hp.state, show state' = _ from hp'.state]

/-- A planned entry extends the chain as it is inspected. -/
theorem inspectAudit_of_plan (h : planAppend host limits capacity x administrator a = .ok plan) :
    inspectAudit host limits a = .ok plan.state ∧ plan.state.entryCount = x.sequence ∧
      x.previousEntryDigest = plan.state.terminalDigest := by
  obtain ⟨archive, segments, scan, headroom, hp⟩ := planAppend_eq_ok.1 h
  have hstate := hp.state
  refine ⟨?_, by rw [hstate]; exact hp.sequence.symm, by rw [hstate]; exact hp.previous⟩
  unfold inspectAudit validateChain validateChainRecords
  simp only [bind_eq_ok, require_eq_ok, decide_eq_true_eq, pure_eq_ok]
  exact ⟨_, hp.read, scan, ⟨scan, hp.scanned, (), hp.bounded, rfl⟩, hstate.symm⟩

/-! ## Reads -/

/-- Every read of the chain succeeds, whatever it asks. -/
def Readable (host : AuditHost) (limits : AuditLimits) (a : AuditStore) : Prop :=
  ∃ archive segments, readSegments host limits a = .ok (archive, segments) ∧
    ∀ query, ∃ scan, validateChainRecords host limits query archive segments = .ok scan

/-- No entry of the chain carries the correlation. -/
def Fresh (host : AuditHost) (limits : AuditLimits) (a : AuditStore) (c : Uuid7) : Prop :=
  ∀ archive segments, readSegments host limits a = .ok (archive, segments) →
    ∀ x ∈ chainEntries host segments, x.correlationId ≠ c

theorem validateChainRecords_eq_ok :
    validateChainRecords host limits query archive segments = .ok scan ↔
      scanChain host limits query archive segments = .ok scan ∧
        scan.allocated ≤ limits.maximumAdministratorBytes := by
  unfold validateChainRecords
  simp only [bind_eq_ok, require_eq_ok, decide_eq_true_eq, pure_eq_ok]
  constructor
  · rintro ⟨scan, hscan, -, hbounded, rfl⟩
    exact ⟨hscan, hbounded⟩
  · rintro ⟨hscan, hbounded⟩
    exact ⟨scan, hscan, (), hbounded, rfl⟩

/-- Two passes stand at the same position. -/
structure SamePosition (scan scan' : ChainScan) : Prop where
  sequence : scan'.sequence = scan.sequence
  terminal : scan'.terminal = scan.terminal
  allocated : scan'.allocated = scan.allocated
  previous : scan'.previousSegmentBytes = scan.previousSegmentBytes
  correlations : scan'.archivedCorrelations = scan.archivedCorrelations

theorem SamePosition.advance (h : SamePosition scan scan') (query query' : ChainQuery)
    (headed archived : Bool) (x : AuditEntry) :
    SamePosition (scan.advance host.encoding query headed archived x)
      (scan'.advance host.encoding query' headed archived x) := by
  refine ⟨?_, ?_, h.allocated, h.previous, ?_⟩
  · show scan'.sequence + 1 = scan.sequence + 1
    rw [h.sequence]
  · show (if archived then scan'.terminal else _) = if archived then scan.terminal else _
    rw [h.terminal]
  · show (if headed then _ :: scan'.archivedCorrelations else scan'.archivedCorrelations) = _
    rw [h.correlations]
    rfl

theorem SamePosition.close (h : SamePosition scan scan') (vouched : Option RotationDescriptor)
    (bytes : Nat) :
    SamePosition (scan.close vouched bytes) (scan'.close vouched bytes) := by
  refine ⟨h.sequence, ?_, h.allocated, rfl, h.correlations⟩
  show vouched.elim scan'.terminal _ = vouched.elim scan.terminal _
  rw [h.terminal]

theorem SamePosition.allocate (h : SamePosition scan scan') (n : Nat) :
    SamePosition (scan.allocate (scan.allocated + n)) (scan'.allocate (scan'.allocated + n)) := by
  refine ⟨h.sequence, h.terminal, ?_, h.previous, h.correlations⟩
  show scan'.allocated + n = scan.allocated + n
  rw [h.allocated]

/-- The position does not depend on what the pass is asked. -/
theorem scanChain_position {query query' : ChainQuery}
    (h : scanChain host limits query archive segments = .ok scan)
    (h' : scanChain host limits query' archive segments = .ok scan') : SamePosition scan scan' := by
  refine foldlM_related (R := SamePosition) ?_ ⟨rfl, rfl, rfl, rfl, rfl⟩ h h'
  intro segment s t s' t' hsame hs ht
  obtain ⟨-, scanned, hlines, rfl⟩ := scanSegment_eq_ok.1 hs
  obtain ⟨-, scanned', hlines', rfl⟩ := scanSegment_eq_ok.1 ht
  refine (foldlM_related (R := SamePosition) ?_ (hsame.allocate _) hlines hlines').close _ _
  intro line u v u' v' huv hu hv
  obtain ⟨x, hx, rfl⟩ := scanLine_eq_ok.1 hu
  obtain ⟨y, hy, rfl⟩ := scanLine_eq_ok.1 hv
  have hxy := hx.decoded.symm.trans hy.decoded
  cases hxy
  exact huv.advance _ _ _ _ _

/-- What was matched so far is also among the correlations collected under an archive head. -/
structure Covered (query : ChainQuery) (scan scan' : ChainScan) : Prop extends
    SamePosition scan scan' where
  matched : ∀ m, scan'.matchingEntry = some m → query.correlationId = some m.correlationId ∧
    m.correlationId ∈ scan'.archivedCorrelations

theorem Covered.advance (h : Covered query scan scan') (archived : Bool) (x : AuditEntry) :
    Covered query (scan.advance host.encoding .none true archived x)
      (scan'.advance host.encoding query true archived x) := by
  refine ⟨h.toSamePosition.advance _ _ _ _ _, fun m hm => ?_⟩
  change (if query.correlationId = some x.correlationId then some x
    else scan'.matchingEntry) = some m at hm
  show _ ∧ m.correlationId ∈ x.correlationId :: scan'.archivedCorrelations
  split at hm
  · rename_i hquery
    obtain rfl := Option.some.inj hm
    exact ⟨hquery, List.mem_cons_self⟩
  · obtain ⟨hquery, hmem⟩ := h.matched m hm
    exact ⟨hquery, List.mem_cons_of_mem _ hmem⟩

/-- Under an archive head every line accepted without a question is accepted with one. -/
theorem Covered.line {archived : Bool} {line : Bytes} {scan scan' next : ChainScan}
    (h : Covered query scan scan')
    (hline : scanLine host .none true archived scan line = .ok next) :
    ∃ next', scanLine host query true archived scan' line = .ok next' ∧
      Covered query next next' := by
  obtain ⟨x, hx, rfl⟩ := scanLine_eq_ok.1 hline
  have hnew := hx.uncorrelated rfl
  refine ⟨_, scanLine_eq_ok.2 ⟨x, ⟨hx.size, hx.decoded, ?_, ?_, ?_⟩, rfl⟩, h.advance archived x⟩
  · rw [h.sequence, h.terminal]
    exact hx.proved
  · intro _
    rw [h.correlations]
    exact hnew
  · intro hquery
    cases hm : scan'.matchingEntry with
    | none => rfl
    | some m =>
        obtain ⟨hmquery, hmem⟩ := h.matched m hm
        rw [hquery] at hmquery
        rw [h.correlations, ← Option.some.inj hmquery] at hmem
        exact absurd hmem hnew

theorem Covered.segment {segment : Segment} {scan scan' next : ChainScan}
    (hheaded : archive.head.isSome = true)
    (h : Covered query scan scan')
    (hsegment : scanSegment host limits .none archive scan segment = .ok next) :
    ∃ next', scanSegment host limits query archive scan' segment = .ok next' ∧
      Covered query next next' := by
  obtain ⟨ha, scanned, hlines, rfl⟩ := scanSegment_eq_ok.1 hsegment
  rw [hheaded] at hlines
  have hstart : Covered query (scan.allocate (scan.allocated + segment.allocatedBytes))
      (scan'.allocate (scan'.allocated + segment.allocatedBytes)) :=
    ⟨h.toSamePosition.allocate _, h.matched⟩
  obtain ⟨scanned', hlines', hrelated⟩ := foldlM_simulated (R := Covered query)
    (f := scanLine host .none true (vouchedDescriptor host archive segment.number).isSome)
    (g := scanLine host query true (vouchedDescriptor host archive segment.number).isSome)
    (fun line u v u' huv hu => huv.line hu) hstart hlines
  refine ⟨_, scanSegment_eq_ok.2 ⟨⟨ha.closed, ?_, ?_⟩, scanned', ?_, rfl⟩,
    hrelated.toSamePosition.close _ _, hrelated.matched⟩
  · rw [h.previous]
    exact ha.packed
  · rw [h.sequence, h.terminal]
    exact ha.vouched
  · rw [hheaded]
    exact hlines'

/-- Under an archive head, a chain that passes one read passes every read. -/
theorem readable_of_headed {state : AuditState} (harchive : a.archive.isSome = true)
    (h : inspectAudit host limits a = .ok state) :
    Readable host limits a := by
  unfold inspectAudit validateChain at h
  simp only [bind_eq_ok, pure_eq_ok] at h
  obtain ⟨⟨archive, segments⟩, hread, base, hbase, -⟩ := h
  obtain ⟨hscan, hbounded⟩ := validateChainRecords_eq_ok.1 hbase
  obtain ⟨scan, hr, -⟩ := readSegments_eq_ok.1 hread
  have hheaded := readArchivePrefix_headed harchive hr.prefix_read
  refine ⟨archive, segments, hread, fun query => ?_⟩
  have hstart : Covered query
      ⟨0, none, archive.allocatedBytes, none, [], none, false, false, false, []⟩
      ⟨0, none, archive.allocatedBytes, none, [], none, false, false, false, []⟩ :=
    ⟨⟨rfl, rfl, rfl, rfl, rfl⟩, fun m hm => nomatch hm⟩
  obtain ⟨scan', hscan', hcovered⟩ := foldlM_simulated (R := Covered query)
    (f := scanSegment host limits .none archive) (g := scanSegment host limits query archive)
    (fun segment s t s' hst hs => hst.segment hheaded hs) hstart hscan
  refine ⟨scan', validateChainRecords_eq_ok.2 ⟨hscan', ?_⟩⟩
  rw [hcovered.allocated]
  exact hbounded

/-- A planned append of a fresh correlation keeps the chain readable. -/
theorem Readable.write (hreadable : Readable host limits a)
    (hplan : planAppend host limits capacity x administrator a = .ok plan)
    (hfresh : Fresh host limits a x.correlationId) : Readable host limits (a.write plan) := by
  obtain ⟨archive, segments, scan, headroom, h⟩ := planAppend_eq_ok.1 hplan
  obtain ⟨archive', segments', hread, hall⟩ := hreadable
  have hsame := h.read.symm.trans hread
  cases hsame
  refine ⟨archive, _, h.read_write, fun query => ?_⟩
  obtain ⟨scan', hvalidated⟩ := hall query
  obtain ⟨hscan', -⟩ := validateChainRecords_eq_ok.1 hvalidated
  have hposition := scanChain_position h.scanned hscan'
  obtain ⟨hcorrelation, hmatch⟩ :=
    (scanChain_spec hscan').1.fresh (hfresh archive segments h.read)
  obtain ⟨next, hnext, hextended⟩ := scanChain_append h.read h.target hscan'
    ⟨h.valid, h.sequence.trans hposition.sequence.symm,
      h.previous.trans hposition.terminal.symm, hcorrelation, hmatch⟩
  refine ⟨next, validateChainRecords_eq_ok.2 ⟨hnext, ?_⟩⟩
  have hceiling := h.ceiling.trans (ceiling_le_administrator limits administrator)
  have hallocated := allocated_le_appendAllocation host plan.payload
  have hbound := hextended.allocated
  rw [hposition.allocated] at hbound
  omega

/-- After a planned append of a fresh correlation the append's own check succeeds. -/
theorem verifyAppend_write (hplan : planAppend host limits capacity x administrator a = .ok plan)
    (hfresh : Fresh host limits a x.correlationId) :
    ∃ r, verifyAppend host limits x administrator (a.write plan) = .ok r := by
  obtain ⟨archive, segments, scan, headroom, h⟩ := planAppend_eq_ok.1 hplan
  obtain ⟨hcorrelation, hmatch⟩ := (scanChain_spec h.scanned).1.fresh (hfresh archive segments h.read)
  obtain ⟨next, hnext, hextended⟩ := scanChain_append h.read h.target h.scanned
    ⟨h.valid, h.sequence, h.previous, hcorrelation, hmatch⟩
  have hallocated := allocated_le_appendAllocation host plan.payload
  have hbound := hextended.allocated
  have hceiling := h.ceiling
  have hadministrator := ceiling_le_administrator limits administrator
  refine ⟨⟨auditEntryDigest host.encoding x, next.state
    (appendedSegments host segments plan.target plan.payload plan.replace)⟩, ?_⟩
  unfold verifyAppend inspectAudit validateChain admitCapacity
  simp only [bind_eq_ok, require_eq_ok, decide_eq_true_eq, pure_eq_ok, validateChainRecords_eq_ok]
  exact ⟨_, ⟨_, h.read_write, next, ⟨hnext, by omega⟩, rfl⟩, (), by
    show next.allocated ≤ _
    omega, (), hextended.terminal, rfl⟩

/-- A verified append moved the chain by exactly its entry. -/
theorem verifyAppend_position {r : AuditAppend}
    (hplan : planAppend host limits capacity x administrator a = .ok plan)
    (h : verifyAppend host limits x administrator (a.write plan) = .ok r) :
    inspectAudit host limits (a.write plan) = .ok r.state ∧ r.state.entryCount = x.sequence + 1 ∧
      r.state.terminalDigest = some (auditEntryDigest host.encoding x) := by
  obtain ⟨archive, segments, scan, headroom, hp⟩ := planAppend_eq_ok.1 hplan
  unfold verifyAppend at h
  simp only [bind_eq_ok, require_eq_ok, decide_eq_true_eq, pure_eq_ok] at h
  obtain ⟨state, hinspect, -, -, -, hterminal, rfl⟩ := h
  refine ⟨hinspect, ?_, hterminal⟩
  unfold inspectAudit validateChain at hinspect
  simp only [bind_eq_ok, pure_eq_ok, validateChainRecords_eq_ok] at hinspect
  obtain ⟨⟨archive', segments'⟩, hread, next, ⟨hnext, -⟩, rfl⟩ := hinspect
  have hsame := hp.read_write.symm.trans hread
  cases hsame
  show next.sequence = _
  rw [(scanChain_spec hnext).1.count, chainEntries_appended hp.read hp.target hp.scanned,
    hp.sequence, (scanChain_spec hp.scanned).1.count, List.length_append, List.length_singleton]

end StaticHostAgent.Audit
