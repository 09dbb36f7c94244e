import StaticHostAgent.Audit.ProjectionsExact

/-!
# The lookup of a correlation

A pass that is asked for a correlation goes the way of the pass that is asked for nothing, until it
meets the correlation a second time. What it has matched and seen behind its match are the answers of
the filters.
-/

set_option autoImplicit false

namespace StaticHostAgent.Audit

open Library Contracts Host

variable {host : AuditHost} {limits : AuditLimits}

/-- The error of a repeated correlation. -/
def repeatedCorrelation : AgentError := .audit "audit correlation appears multiple times"

/-- The pass has answered the correlation over the entries seen so far. -/
structure Answered (c : Uuid7) (scan : ChainScan) (xs : List AuditEntry) : Prop where
  matched : scan.matchingEntry = (carrying xs c).head?
  later : Increasing xs → scan.hasLaterTenantStateTransition =
    (carrying xs c).head?.any fun entry => !(transitionsBehind xs entry).isEmpty

theorem carrying_append (xs : List AuditEntry) (x : AuditEntry) (c : Uuid7) :
    carrying (xs ++ [x]) c = carrying xs c ++ if x.correlationId = c then [x] else [] := by
  unfold carrying
  rw [List.filter_append]
  by_cases hx : x.correlationId = c
  · rw [if_pos hx, List.filter_cons_of_pos (by simp [hx])]
    rfl
  · rw [if_neg hx, List.filter_cons_of_neg (by simp [hx])]
    rfl

/-- Behind the last entry there is none. -/
theorem transitionsBehind_last {xs : List AuditEntry} {x : AuditEntry}
    (increasing : Increasing (xs ++ [x])) : transitionsBehind (xs ++ [x]) x = [] := by
  unfold transitionsBehind
  apply List.filter_eq_nil_iff.2
  intro y hy
  have hle : y.sequence ≤ x.sequence := by
    rcases List.mem_append.1 hy with hy | hy
    · exact Nat.le_of_lt ((List.pairwise_append.1 increasing).2.2 y hy x List.mem_cons_self)
    · rw [List.mem_singleton.1 hy]
  rw [decide_eq_false (by omega), Bool.false_and]
  exact Bool.false_ne_true

theorem transitionsBehind_append {xs : List AuditEntry} {x entry : AuditEntry}
    (hlt : entry.sequence < x.sequence) :
    transitionsBehind (xs ++ [x]) entry =
      transitionsBehind xs entry ++ if sharesTenant entry x then [x] else [] := by
  unfold transitionsBehind
  rw [List.filter_append, List.filter_cons, decide_eq_true hlt, Bool.true_and]
  rfl

theorem isLaterTenantStateTransition_eq {entry x : AuditEntry} (hlt : entry.sequence < x.sequence) :
    isLaterTenantStateTransition (some entry) x = sharesTenant entry x := by
  unfold isLaterTenantStateTransition sharesTenant
  rw [Option.any_some, decide_eq_true (p := x.sequence ≠ entry.sequence) (by omega), Bool.true_and]

/-- One entry that does not repeat the correlation. -/
theorem Answered.advance {c : Uuid7} {scan : ChainScan} {xs : List AuditEntry}
    (h : Answered c scan xs) (headed archived : Bool) {x : AuditEntry}
    (honce : x.correlationId = c → carrying xs c = []) :
    Answered c (scan.advance host.encoding (.correlation c) headed archived x) (xs ++ [x]) := by
  have hmatching : (scan.advance host.encoding (.correlation c) headed archived x).matchingEntry =
      if some c = some x.correlationId then some x else scan.matchingEntry := rfl
  have hlater : (scan.advance host.encoding (.correlation c) headed
      archived x).hasLaterTenantStateTransition = (scan.hasLaterTenantStateTransition ||
        isLaterTenantStateTransition
          (if some c = some x.correlationId then some x else scan.matchingEntry) x) := rfl
  by_cases hx : x.correlationId = c
  · -- the entry itself: nothing was matched before, and nothing is behind it
    have hnil := honce hx
    have hcarrying : carrying (xs ++ [x]) c = [x] := by
      rw [carrying_append, hnil, if_pos hx]
      rfl
    rw [if_pos (congrArg some hx.symm)] at hmatching hlater
    refine ⟨?_, ?_⟩
    · rw [hmatching, hcarrying]
      rfl
    · intro increasing
      have hbefore := h.later (List.pairwise_append.1 increasing).1
      rw [hnil] at hbefore
      rw [hlater, hbefore, hcarrying, List.head?_cons, Option.any_some,
        transitionsBehind_last increasing]
      unfold isLaterTenantStateTransition
      rw [Option.any_some, decide_eq_false (p := x.sequence ≠ x.sequence) (fun h => h rfl)]
      rfl
  · have hcarrying : carrying (xs ++ [x]) c = carrying xs c := by
      rw [carrying_append, if_neg hx, List.append_nil]
    rw [if_neg fun h => hx (Option.some.inj h).symm] at hmatching hlater
    refine ⟨?_, ?_⟩
    · rw [hmatching, hcarrying]
      exact h.matched
    · intro increasing
      have hparts := List.pairwise_append.1 increasing
      rw [hlater, h.later hparts.1, hcarrying, h.matched]
      cases hfound : (carrying xs c).head? with
      | none => rfl
      | some entry =>
          have hmem : entry ∈ xs :=
            (List.mem_filter.1 (List.mem_of_head? hfound)).1
          have hlt := hparts.2.2 entry hmem x List.mem_cons_self
          rw [Option.any_some, Option.any_some, isLaterTenantStateTransition_eq hlt,
            transitionsBehind_append hlt]
          cases sharesTenant entry x with
          | true =>
              rw [Bool.or_true, if_pos rfl]
              cases transitionsBehind xs entry <;> rfl
          | false =>
              rw [Bool.or_false, if_neg Bool.false_ne_true, List.append_nil]

/-! ## The way of the pass -/

/-- What a pass asked for `c` does on the way of a pass that stands at `scan`. -/
structure Follows (c : Uuid7) (xs : List AuditEntry) (scan : ChainScan)
    (outcome : Except AgentError ChainScan) : Prop where
  once : (carrying xs c).length ≤ 1 → ∃ asked, outcome = .ok asked ∧ SamePosition scan asked ∧
    Answered c asked xs
  repeated : 1 < (carrying xs c).length → outcome = .error repeatedCorrelation

/-- A line that carries the correlation a second time is refused, and for nothing else. -/
theorem scanLine_repeated {c : Uuid7} {headed archived : Bool} {scan asked : ChainScan}
    {line : Bytes} {x : AuditEntry} (hx : LineAccepted host .none headed archived scan line x)
    (hsame : SamePosition scan asked) (hc : x.correlationId = c)
    (hmatched : asked.matchingEntry.isSome = true) :
    scanLine host (.correlation c) headed archived asked line = .error repeatedCorrelation := by
  have hdecoded := decodeAuditEntry_eq_ok.2 hx.decoded
  have hproved : proveLine host archived asked line x = .ok () := by
    rw [proveLine_eq_ok, hsame.sequence, hsame.terminal]
    exact hx.proved
  have hheaded : (!headed || decide (x.correlationId ∉ asked.archivedCorrelations)) = true := by
    rw [hsame.correlations]
    cases headed with
    | false => rfl
    | true => exact decide_eq_true (hx.uncorrelated rfl)
  have hquery : (decide (ChainQuery.correlationId (.correlation c) ≠ some x.correlationId) ||
      asked.matchingEntry.isNone) = false := by
    rw [Option.isNone_eq_false_iff.2 hmatched, Bool.or_false]
    exact decide_eq_false fun hne => hne (congrArg some hc.symm)
  unfold scanLine
  rw [decide_eq_true hx.size, require_true, ok_bind, hdecoded]
  show (proveLine host archived asked line x >>= _) = _
  rw [hproved, ok_bind, hheaded, require_true, ok_bind, hquery, require_false, error_bind]
  rfl

theorem Follows.line {c : Uuid7} {headed archived : Bool} {line : Bytes} {xs : List AuditEntry}
    {scan next : ChainScan} {outcome : Except AgentError ChainScan} (h : Follows c xs scan outcome)
    (hline : scanLine host .none headed archived scan line = .ok next) :
    Follows c (xs ++ [line].filterMap (lineEntry host)) next
      (outcome >>= fun asked => scanLine host (.correlation c) headed archived asked line) := by
  obtain ⟨x, hx, rfl⟩ := scanLine_eq_ok.1 hline
  have hentry : [line].filterMap (lineEntry host) = [x] := by
    rw [List.filterMap_cons, hx.lineEntry_eq]
    rfl
  rw [hentry]
  have hcount : (carrying (xs ++ [x]) c).length =
      (carrying xs c).length + if x.correlationId = c then 1 else 0 := by
    rw [carrying_append, List.length_append]
    by_cases hsame : x.correlationId = c
    · rw [if_pos hsame, if_pos hsame, List.length_singleton]
    · rw [if_neg hsame, if_neg hsame, List.length_nil]
  by_cases hlong : 1 < (carrying xs c).length
  · -- it has failed before
    rw [h.repeated hlong, error_bind]
    exact ⟨fun hone => by omega, fun _ => rfl⟩
  obtain ⟨asked, rfl, hsame, hanswered⟩ := h.once (by omega)
  rw [ok_bind]
  have haccepted : (x.correlationId = c → carrying xs c = []) →
      LineAccepted host (.correlation c) headed archived asked line x := by
    intro honce
    refine ⟨hx.size, hx.decoded, ?_, ?_, ?_⟩
    · rw [hsame.sequence, hsame.terminal]
      exact hx.proved
    · rw [hsame.correlations]
      exact hx.uncorrelated
    · intro hquery
      rw [hanswered.matched, honce (Option.some.inj hquery).symm]
      rfl
  by_cases honce : x.correlationId = c → carrying xs c = []
  · refine ⟨fun _ => ⟨_, scanLine_eq_ok.2 ⟨x, haccepted honce, rfl⟩,
      hsame.advance _ _ _ _ _, hanswered.advance headed archived honce⟩, ?_⟩
    intro htwo
    -- an entry of another correlation, or the first of this one
    by_cases hx' : x.correlationId = c
    · rw [hcount, if_pos hx', honce hx'] at htwo
      cases htwo with
      | step h => cases h
    · rw [hcount, if_neg hx'] at htwo
      omega
  · obtain ⟨hx', hmore⟩ := Classical.not_imp.1 honce
    have hpos := List.length_pos_iff.2 hmore
    refine ⟨fun hone => ?_, fun _ => ?_⟩
    · rw [hcount, if_pos hx'] at hone
      omega
    · apply scanLine_repeated hx hsame hx'
      rw [hanswered.matched, List.isSome_head?]
      exact hmore

theorem Follows.lines {c : Uuid7} {headed archived : Bool} {lines : List Bytes}
    {xs : List AuditEntry} {scan next asked : ChainScan}
    (h : Follows c xs scan (.ok asked))
    (hlines : lines.foldlM (scanLine host .none headed archived) scan = .ok next) :
    Follows c (xs ++ lines.filterMap (lineEntry host)) next
      (lines.foldlM (scanLine host (.correlation c) headed archived) asked) := by
  refine foldlM_outcome
    (T := fun seen s r => Follows c (xs ++ seen.filterMap (lineEntry host)) s r) ?_ ?_ hlines
  · rw [List.filterMap_nil, List.append_nil]
    exact h
  · intro seen line s s' r hr hstep
    rw [List.filterMap_append, ← List.append_assoc]
    exact hr.line hstep

/-- Behind the checks of a segment only its lines are left to scan. -/
theorem scanSegment_of_accepted {query : ChainQuery} {archive : ArchivePrefix host.encoding}
    {scan : ChainScan} {segment : Segment}
    (h : SegmentAccepted limits (vouchedDescriptor host archive segment.number) scan
      segment.data) :
    scanSegment host limits query archive scan segment =
      ((splitLines segment.data).foldlM
        (scanLine host query archive.head.isSome
          (vouchedDescriptor host archive segment.number).isSome)
        (scan.allocate (scan.allocated + segment.allocatedBytes)) >>= fun scanned =>
          .ok (scanned.close (vouchedDescriptor host archive segment.number)
            segment.data.length)) := by
  have hpacked : (scan.previousSegmentBytes.all fun previous =>
      decide (limits.maximumSegmentBytes <
        previous + ((splitLines segment.data).head?.getD []).length)) = true :=
    option_all_iff.2 fun previous hprevious => decide_eq_true (h.packed previous hprevious)
  have hvouched : ((vouchedDescriptor host archive segment.number).all fun descriptor =>
      decide (descriptor.firstSequence = scan.sequence) &&
        decide (descriptor.predecessorEntryDigest = scan.terminal)) = true := by
    apply option_all_iff.2
    intro d hd
    rw [decide_eq_true (h.vouched d hd).1, decide_eq_true (h.vouched d hd).2]
    rfl
  unfold scanSegment
  dsimp only
  rw [decide_eq_true h.closed, require_true, ok_bind, hpacked, require_true, ok_bind, hvouched,
    require_true, ok_bind]
  rfl

theorem Follows.segment {c : Uuid7} {archive : ArchivePrefix host.encoding} {segment : Segment}
    {xs : List AuditEntry} {scan next : ChainScan} {outcome : Except AgentError ChainScan}
    (h : Follows c xs scan outcome)
    (hsegment : scanSegment host limits .none archive scan segment = .ok next) :
    Follows c (xs ++ (splitLines segment.data).filterMap (lineEntry host)) next
      (outcome >>= fun asked =>
        scanSegment host limits (.correlation c) archive asked segment) := by
  by_cases hlong : 1 < (carrying xs c).length
  · have hmore : 1 < (carrying (xs ++ (splitLines segment.data).filterMap (lineEntry host))
        c).length := by
      unfold carrying at hlong ⊢
      rw [List.filter_append, List.length_append]
      omega
    rw [h.repeated hlong, error_bind]
    exact ⟨fun hone => by omega, fun _ => rfl⟩
  obtain ⟨asked, rfl, hsame, hanswered⟩ := h.once (by omega)
  obtain ⟨ha, scanned, hlines, rfl⟩ := scanSegment_eq_ok.1 hsegment
  have hasked : SegmentAccepted limits (vouchedDescriptor host archive segment.number) asked
      segment.data := by
    refine ⟨ha.closed, ?_, ?_⟩
    · rw [hsame.previous]
      exact ha.packed
    · rw [hsame.sequence, hsame.terminal]
      exact ha.vouched
  have hopen : Follows c xs (scan.allocate (scan.allocated + segment.allocatedBytes))
      (.ok (asked.allocate (asked.allocated + segment.allocatedBytes))) :=
    ⟨fun _ => ⟨_, rfl, hsame.allocate _, ⟨hanswered.matched, hanswered.later⟩⟩,
      fun hmany => absurd hmany hlong⟩
  have hfollows := hopen.lines hlines
  rw [ok_bind, scanSegment_of_accepted hasked]
  refine ⟨?_, ?_⟩
  · intro hone
    obtain ⟨asked', hfold, hsame', hanswered'⟩ := hfollows.once hone
    rw [hfold, ok_bind]
    exact ⟨_, rfl, hsame'.close _ _, ⟨hanswered'.matched, hanswered'.later⟩⟩
  · intro hmany
    rw [hfollows.repeated hmany, error_bind]

theorem follows_of_chain {archive : ArchivePrefix host.encoding} {segments : List Segment}
    {scan : ChainScan} (c : Uuid7)
    (h : scanChain host limits .none archive segments = .ok scan) :
    Follows c (chainEntries host segments) scan
      (scanChain host limits (.correlation c) archive segments) := by
  unfold scanChain at h ⊢
  refine foldlM_outcome (T := fun seen s r => Follows c (chainEntries host seen) s r) ?_ ?_ h
  · refine ⟨fun _ => ⟨_, rfl, ⟨rfl, rfl, rfl, rfl, rfl⟩, ⟨rfl, fun _ => rfl⟩⟩, ?_⟩
    intro hmany
    exact absurd hmany (Nat.not_lt_zero 1)
  · intro seen segment s s' r hr hstep
    rw [chainEntries_eq, List.flatMap_append, List.filterMap_append, ← chainEntries_eq]
    have hnext := hr.segment hstep
    simpa using hnext

/-! ## The reads of an accepted log -/

/-- The flat list of the entries of a log. -/
def flatEntries (host : AuditHost) (limits : AuditLimits) (a : AuditStore) : List AuditEntry :=
  match readSegments host limits a with
  | .ok (_, segments) => chainEntries host segments
  | .error _ => []

/-- A log that the chain validator accepts. -/
structure AcceptedLog (host : AuditHost) (limits : AuditLimits) where
  store : AuditStore
  state : AuditState
  accepted : inspectAudit host limits store = .ok state

/-- What a read of an accepted log goes through. -/
structure AcceptedRead (host : AuditHost) (limits : AuditLimits) (store : AuditStore)
    (state : AuditState) (archive : ArchivePrefix host.encoding) (segments : List Segment)
    (scan : ChainScan) : Prop where
  read : readSegments host limits store = .ok (archive, segments)
  scanned : scanChain host limits .none archive segments = .ok scan
  bounded : scan.allocated ≤ limits.maximumAdministratorBytes
  state : state = scan.state segments
  flat : FlatChain host segments (flatEntries host limits store)

namespace AcceptedLog

variable (log : AcceptedLog host limits)

/-- The flat list of its entries. -/
def entries (log : AcceptedLog host limits) : List AuditEntry := flatEntries host limits log.store

theorem exists_read : ∃ archive segments scan,
    AcceptedRead host limits log.store log.state archive segments scan := by
  have haccepted := log.accepted
  unfold inspectAudit validateChain at haccepted
  obtain ⟨⟨archive, segments⟩, hread, haccepted⟩ := bind_eq_ok.1 haccepted
  obtain ⟨scan, hvalid, hstate⟩ := bind_eq_ok.1 haccepted
  obtain ⟨hscanned, hbounded⟩ := validateChainRecords_eq_ok.1 hvalid
  have hsound := chainSound_of_read hread hscanned
  have hentries : flatEntries host limits log.store = chainEntries host segments := by
    unfold flatEntries
    rw [hread]
  refine ⟨archive, segments, scan, hread, hscanned, hbounded, (pure_eq_ok.1 hstate).symm, ?_⟩
  rw [hentries]
  exact ⟨hsound.canonical, hsound.linked⟩

end AcceptedLog

section Reads

variable {store : AuditStore} {state : AuditState} {archive : ArchivePrefix host.encoding}
  {segments : List Segment} {scan : ChainScan}

/-- The pass asked for a correlation that occurs at most once. -/
theorem AcceptedRead.once (h : AcceptedRead host limits store state archive segments scan)
    {c : Uuid7} (hone : (carrying (flatEntries host limits store) c).length ≤ 1) :
    ∃ asked, validateChainRecords host limits (.correlation c) archive segments = .ok asked ∧
      asked.state segments = state ∧
      asked.matchingEntry = (carrying (flatEntries host limits store) c).head? ∧
      asked.hasLaterTenantStateTransition =
        (carrying (flatEntries host limits store) c).head?.any fun entry =>
          !(transitionsBehind (flatEntries host limits store) entry).isEmpty := by
  have hfollows := follows_of_chain c h.scanned
  rw [h.flat.entries_eq] at hfollows
  obtain ⟨asked, hasked, hsame, hanswered⟩ := hfollows.once hone
  refine ⟨asked, validateChainRecords_eq_ok.2 ⟨hasked, ?_⟩, ?_, hanswered.matched,
    hanswered.later h.flat.increasing⟩
  · rw [hsame.allocated]
    exact h.bounded
  · rw [h.state]
    unfold ChainScan.state
    rw [hsame.sequence, hsame.allocated, hsame.terminal]

/-- The pass asked for a correlation that occurs more than once. -/
theorem AcceptedRead.repeated (h : AcceptedRead host limits store state archive segments scan)
    {c : Uuid7} (hmany : 1 < (carrying (flatEntries host limits store) c).length) :
    validateChainRecords host limits (.correlation c) archive segments =
      .error repeatedCorrelation := by
  have hfollows := follows_of_chain c h.scanned
  rw [h.flat.entries_eq] at hfollows
  unfold validateChainRecords
  rw [hfollows.repeated hmany, error_bind]

/-- An entry of the flat list lies before its end. -/
theorem AcceptedRead.sequence_lt (h : AcceptedRead host limits store state archive segments scan)
    {entry : AuditEntry} (hmem : entry ∈ flatEntries host limits store) :
    entry.sequence < (flatEntries host limits store).length := by
  have hrange := h.flat.linked.sequence
  have hsequence : entry.sequence ∈
      List.range' 0 (flatEntries host limits store).length := by
    rw [← hrange]
    exact List.mem_map_of_mem hmem
  have hbounds := List.mem_range'_1.1 hsequence
  omega

theorem head?_of_length {c : Uuid7} {entries : List AuditEntry} {entry : AuditEntry}
    (hone : (carrying entries c).length ≤ 1) :
    (carrying entries c).head? = some entry ↔ carrying entries c = [entry] := by
  cases hcarrying : carrying entries c with
  | nil => exact ⟨fun h => (nomatch h), fun h => (nomatch h)⟩
  | cons x rest =>
      rw [hcarrying, List.length_cons] at hone
      have hrest : rest = [] := List.length_eq_zero_iff.1 (by omega)
      rw [hrest, List.head?_cons]
      constructor
      · intro h
        rw [Option.some.inj h]
      · intro h
        exact congrArg some (List.cons.inj h).1

end Reads

namespace AcceptedLog

variable (log : AcceptedLog host limits)

/-- The lookup answers with the filters, or fails because the correlation is repeated. -/
theorem inspectAuditCorrelationWalk_eq (c : Uuid7) :
    inspectAuditCorrelationWalk host limits c log.store =
      if (carrying log.entries c).length ≤ 1 then .ok (snapshotOf log.state log.entries c)
      else .error repeatedCorrelation := by
  obtain ⟨archive, segments, scan, h⟩ := log.exists_read
  unfold inspectAuditCorrelationWalk
  rw [h.read, ok_bind]
  dsimp only
  by_cases hone : (carrying log.entries c).length ≤ 1
  · obtain ⟨asked, hasked, hstate, hmatched, hlater⟩ := h.once hone
    rw [if_pos hone, hasked, ok_bind, hstate, hmatched, hlater]
    change (walkPreviousTransition host segments (carrying log.entries c).head? >>= fun previous =>
      pure (AuditCorrelationSnapshot.mk log.state (carrying log.entries c).head? previous
        ((carrying log.entries c).head?.any fun entry =>
          !(transitionsBehind log.entries entry).isEmpty))) = _
    unfold snapshotOf
    cases hfound : (carrying log.entries c).head? with
    | none => rfl
    | some entry =>
        have hmem : entry ∈ log.entries := (List.mem_filter.1 (List.mem_of_head? hfound)).1
        rw [walkPreviousTransition_eq h.flat hmem, ok_bind]
        rfl
  · rw [if_neg hone, h.repeated (Nat.lt_of_not_le hone), error_bind]

/-- The same of the lookup that the other results of this development use. -/
theorem inspectAuditCorrelation_eq (c : Uuid7) :
    inspectAuditCorrelation host limits c log.store =
      inspectAuditCorrelationWalk host limits c log.store := by
  obtain ⟨archive, segments, scan, h⟩ := log.exists_read
  unfold inspectAuditCorrelation inspectAuditCorrelationWalk
  rw [h.read, ok_bind, ok_bind]
  dsimp only
  by_cases hone : (carrying log.entries c).length ≤ 1
  · obtain ⟨asked, hasked, _, hmatched, _⟩ := h.once hone
    have hmem : ∀ entry, asked.matchingEntry = some entry → entry ∈ log.entries := by
      intro entry hentry
      rw [hmatched] at hentry
      exact (List.mem_filter.1 (List.mem_of_head? hentry)).1
    rw [hasked, ok_bind, ok_bind, walkPreviousTransition_eq_previous h.flat hmem, ok_bind]
  · rw [h.repeated (Nat.lt_of_not_le hone), error_bind, error_bind]

/-- The projection of the later transitions, with every way it can be answered. -/
theorem inspectLaterAuditTransitions_iff (c : Uuid7) (maximum : Nat)
    (boundary : Option AuditBoundary) (transitions : List AuditTransition) :
    inspectLaterAuditTransitions host limits c maximum boundary log.store = .ok transitions ↔
      (carrying log.entries c = [] ∧ boundary = none ∧ transitions = []) ∨
      ∃ entry start, carrying log.entries c = [entry] ∧
        StartsAt host log.entries entry start boundary ∧
        transitions = transitionsBetween log.entries start (boundary.map fun _ => entry.sequence) ∧
        (transitions.map AuditTransition.correlationId).Nodup ∧ transitions.length ≤ maximum := by
  obtain ⟨archive, segments, scan, h⟩ := log.exists_read
  unfold inspectLaterAuditTransitions
  rw [h.read, ok_bind]
  dsimp only
  by_cases hone : (carrying log.entries c).length ≤ 1
  · obtain ⟨asked, hasked, _, hmatched, _⟩ := h.once hone
    change asked.matchingEntry = (carrying log.entries c).head? at hmatched
    rw [hasked, ok_bind, hmatched]
    cases hfound : (carrying log.entries c).head? with
    | none =>
        have hnil := List.head?_eq_none_iff.1 hfound
        unfold laterAuditTransitions
        dsimp only
        rw [hnil, bind_eq_ok]
        simp only [require_eq_ok, pure_eq_ok, Option.isNone_iff_eq_none]
        constructor
        · rintro ⟨_, hboundary, rfl⟩
          exact .inl ⟨trivial, hboundary, rfl⟩
        · rintro (⟨_, hboundary, rfl⟩ | ⟨entry, _, hentry, _⟩)
          · exact ⟨(), hboundary, rfl⟩
          · cases hentry
    | some entry =>
        have hcarrying := (head?_of_length hone).1 hfound
        have hmem : entry ∈ log.entries := (List.mem_filter.1 (List.mem_of_head? hfound)).1
        rw [laterAuditTransitions_iff h.flat (Nat.le_of_lt (h.sequence_lt hmem)), hcarrying]
        constructor
        · rintro ⟨start, hstart, hrest⟩
          exact .inr ⟨entry, start, rfl, hstart, hrest⟩
        · rintro (⟨hnil, _⟩ | ⟨other, start, hother, hstart, hrest⟩)
          · cases hnil
          · obtain rfl := (List.cons.inj hother).1
            exact ⟨start, hstart, hrest⟩
  · rw [h.repeated (Nat.lt_of_not_le hone), error_bind]
    constructor
    · intro hok
      cases hok
    · rintro (⟨hnil, _⟩ | ⟨entry, _, hentry, _⟩)
      · rw [hnil] at hone
        exact absurd (Nat.zero_le _) hone
      · rw [hentry] at hone
        exact absurd (Nat.le_refl _) hone

end AcceptedLog

end StaticHostAgent.Audit
