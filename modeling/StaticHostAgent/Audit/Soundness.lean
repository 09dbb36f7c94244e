import StaticHostAgent.Audit.Append

/-!
# What the validation pass accepts

`scanLine_eq_ok` and `scanSegment_eq_ok` say once what one step of the pass does. `ScanOf` relates a
pass to the entries it has seen; `LocalScanned` relates the scan of the local files to the segments
it collected.
-/

set_option autoImplicit false

namespace StaticHostAgent.Audit

open Library Contracts Host

variable {host : AuditHost} {limits : AuditLimits} {query : ChainQuery}
  {scan scan' : ChainScan} {x : AuditEntry}

/-! ## One line -/

/-- The pass takes the line for the entry `x`. -/
structure LineAccepted (host : AuditHost) (query : ChainQuery) (headed archived : Bool)
    (scan : ChainScan) (line : Bytes) (x : AuditEntry) : Prop where
  size : line.length ≤ maxCanonicalBytes
  decoded : host.encoding.decode line = some (.auditEntry x)
  proved : archived = false → ValidContract host.encoding (.auditEntry x) ∧
    host.encoding.canonical (.auditEntry x) = line ∧ x.sequence = scan.sequence ∧
      x.previousEntryDigest = scan.terminal
  uncorrelated : headed = true → x.correlationId ∉ scan.archivedCorrelations
  unmatched : query.correlationId = some x.correlationId → scan.matchingEntry = none

theorem decodeAuditEntry_eq_ok {e : Encoding} {line : Bytes} :
    decodeAuditEntry e line = .ok x ↔ e.decode line = some (.auditEntry x) := by
  unfold decodeAuditEntry
  split
  · rename_i y hy
    rw [hy, pure_eq_ok]
    constructor
    · rintro rfl
      rfl
    · intro h
      cases h
      rfl
  · rename_i hne
    constructor
    · intro h
      cases h
    · intro h
      exact absurd h (hne x)

theorem canonicalAuditEntry_eq_ok {e : Encoding} {r : Bytes × Digest} :
    canonicalAuditEntry e x = .ok r ↔
      ValidContract e (.auditEntry x) ∧ r = (e.canonical (.auditEntry x), auditEntryDigest e x) := by
  unfold canonicalAuditEntry
  simp only [bind_eq_ok, validateContract_eq_ok, pure_eq_ok]
  constructor
  · rintro ⟨raw, ⟨hvalid, rfl⟩, rfl⟩
    exact ⟨hvalid, rfl⟩
  · rintro ⟨hvalid, rfl⟩
    exact ⟨_, ⟨hvalid, rfl⟩, rfl⟩

theorem proveLine_eq_ok {archived : Bool} {line : Bytes} {u : Unit} :
    proveLine host archived scan line x = .ok u ↔
      (archived = false → ValidContract host.encoding (.auditEntry x) ∧
        host.encoding.canonical (.auditEntry x) = line ∧ x.sequence = scan.sequence ∧
          x.previousEntryDigest = scan.terminal) := by
  unfold proveLine
  cases archived with
  | true =>
      constructor
      · intro _ h
        cases h
      · intro _
        rfl
  | false =>
      rw [if_neg (by simp)]
      simp only [bind_eq_ok, mapError_eq_ok, canonicalAuditEntry_eq_ok, require_eq_ok,
        decide_eq_true_eq]
      constructor
      · rintro ⟨r, ⟨hvalid, rfl⟩, -, hcanonical, -, hsequence, hprevious⟩ -
        exact ⟨hvalid, hcanonical, hsequence, hprevious⟩
      · intro h
        obtain ⟨hvalid, hcanonical, hsequence, hprevious⟩ := h trivial
        exact ⟨_, ⟨hvalid, rfl⟩, (), hcanonical, (), hsequence, hprevious⟩

theorem scanLine_eq_ok {headed archived : Bool} {line : Bytes} :
    scanLine host query headed archived scan line = .ok scan' ↔
      ∃ x, LineAccepted host query headed archived scan line x ∧
        scan' = scan.advance host.encoding query headed archived x := by
  unfold scanLine
  simp only [bind_eq_ok, require_eq_ok, mapError_eq_ok, decodeAuditEntry_eq_ok, pure_eq_ok,
    proveLine_eq_ok, decide_eq_true_eq, Bool.or_eq_true, Bool.not_eq_true',
    Option.isNone_iff_eq_none]
  constructor
  · rintro ⟨-, hsize, x, hdecoded, -, hproved, -, hcorrelation, -, hmatch, rfl⟩
    refine ⟨x, ⟨hsize, hdecoded, hproved, ?_, ?_⟩, rfl⟩
    · intro hheaded
      rcases hcorrelation with h | h
      · rw [hheaded] at h
        cases h
      · exact h
    · intro hquery
      rcases hmatch with h | h
      · exact absurd hquery h
      · exact h
  · rintro ⟨x, ⟨hsize, hdecoded, hproved, hcorrelation, hmatch⟩, rfl⟩
    refine ⟨(), hsize, x, hdecoded, (), hproved, (), ?_, (), ?_, rfl⟩
    · cases headed with
      | false => exact Or.inl rfl
      | true => exact Or.inr (hcorrelation rfl)
    · by_cases hquery : query.correlationId = some x.correlationId
      · exact Or.inr (hmatch hquery)
      · exact Or.inl hquery

/-- The entry a line denotes, if it denotes one. -/
def lineEntry (host : AuditHost) (line : Bytes) : Option AuditEntry :=
  match host.encoding.decode line with
  | some (.auditEntry x) => some x
  | _ => none

theorem chainEntries_eq (segments : List Segment) :
    chainEntries host segments =
      (segments.flatMap fun s => splitLines s.data).filterMap (lineEntry host) := rfl

theorem LineAccepted.lineEntry_eq {headed archived : Bool} {line : Bytes}
    (h : LineAccepted host query headed archived scan line x) :
    lineEntry host line = some x := by
  unfold lineEntry
  rw [h.decoded]

/-- The canonical line of a valid entry is accepted behind a chain it extends. -/
theorem LineAccepted.of_valid {headed : Bool} (hvalid : ValidContract host.encoding (.auditEntry x))
    (hsequence : x.sequence = scan.sequence) (hprevious : x.previousEntryDigest = scan.terminal)
    (hcorrelation : headed = true → x.correlationId ∉ scan.archivedCorrelations)
    (hmatch : query.correlationId = some x.correlationId → scan.matchingEntry = none) :
    LineAccepted host query headed false scan (host.encoding.canonical (.auditEntry x)) x :=
  ⟨hvalid.2.2, host.encoding.decode_canonical _, fun _ => ⟨hvalid, rfl, hsequence, hprevious⟩,
    hcorrelation, hmatch⟩

/-! ## The entries seen by a pass -/

/-- The pass has seen the entries `xs`. -/
structure ScanOf (query : ChainQuery) (scan : ChainScan) (xs : List AuditEntry) : Prop where
  count : scan.sequence = xs.length
  correlations : ∀ c ∈ scan.archivedCorrelations, ∃ x ∈ xs, x.correlationId = c
  matched : ∀ m, scan.matchingEntry = some m →
    m ∈ xs ∧ query.correlationId = some m.correlationId

theorem ScanOf.advance {xs : List AuditEntry} (h : ScanOf query scan xs) (headed archived : Bool)
    (x : AuditEntry) :
    ScanOf query (scan.advance host.encoding query headed archived x) (xs ++ [x]) := by
  refine ⟨?_, ?_, ?_⟩
  · show scan.sequence + 1 = (xs ++ [x]).length
    rw [h.count, List.length_append, List.length_singleton]
  · intro c hc
    have hcases : c = x.correlationId ∨ c ∈ scan.archivedCorrelations := by
      cases headed with
      | true => exact List.mem_cons.1 hc
      | false => exact Or.inr hc
    rcases hcases with rfl | hc
    · exact ⟨x, List.mem_append_right xs (List.mem_singleton_self x), rfl⟩
    · obtain ⟨y, hy, hyc⟩ := h.correlations c hc
      exact ⟨y, List.mem_append_left _ hy, hyc⟩
  · intro m hm
    change (if query.correlationId = some x.correlationId then some x
      else scan.matchingEntry) = some m at hm
    split at hm
    · rename_i hquery
      obtain rfl := Option.some.inj hm
      exact ⟨List.mem_append_right xs (List.mem_singleton_self x), hquery⟩
    · obtain ⟨hmem, hcorrelation⟩ := h.matched m hm
      exact ⟨List.mem_append_left _ hmem, hcorrelation⟩

/-- A correlation no entry carries is neither collected nor matched. -/
theorem ScanOf.fresh {xs : List AuditEntry} (h : ScanOf query scan xs) {c : Uuid7}
    (hfresh : ∀ x ∈ xs, x.correlationId ≠ c) :
    c ∉ scan.archivedCorrelations ∧ (query.correlationId = some c → scan.matchingEntry = none) := by
  refine ⟨fun hc => ?_, fun hquery => ?_⟩
  · obtain ⟨x, hx, hxc⟩ := h.correlations c hc
    exact hfresh x hx hxc
  · cases hm : scan.matchingEntry with
    | none => rfl
    | some m =>
        obtain ⟨hmem, hcorrelation⟩ := h.matched m hm
        rw [hquery] at hcorrelation
        exact absurd (Option.some.inj hcorrelation).symm (hfresh m hmem)

/-- Scanning lines collects the entries of the lines. -/
theorem scanLines_spec {headed archived : Bool} {lines : List Bytes} {xs : List AuditEntry}
    (hscan : ScanOf query scan xs)
    (h : lines.foldlM (scanLine host query headed archived) scan = .ok scan') :
    ScanOf query scan' (xs ++ lines.filterMap (lineEntry host)) := by
  refine foldlM_invariant (P := fun seen s => ScanOf query s (xs ++ seen.filterMap
    (lineEntry host))) (by simpa using hscan) ?_ h
  intro seen line s s' hs hstep
  obtain ⟨x, hx, rfl⟩ := scanLine_eq_ok.1 hstep
  rw [List.filterMap_append, ← List.append_assoc, List.filterMap_cons, hx.lineEntry_eq]
  exact hs.advance headed archived x

/-- Scanning lines allocates nothing. -/
theorem scanLines_allocated_eq {headed archived : Bool} {lines : List Bytes}
    (h : lines.foldlM (scanLine host query headed archived) scan = .ok scan') :
    scan'.allocated = scan.allocated := by
  refine foldlM_invariant (P := fun _ s => s.allocated = scan.allocated) rfl ?_ h
  intro seen line s s' hs hstep
  obtain ⟨x, hx, rfl⟩ := scanLine_eq_ok.1 hstep
  exact hs

/-- Every line of an unarchived segment is the canonical line of a valid entry. -/
theorem scanLines_canonical {headed : Bool} {lines : List Bytes}
    (h : lines.foldlM (scanLine host query headed false) scan = .ok scan') :
    ∀ line ∈ lines, ∃ x, ValidContract host.encoding (.auditEntry x) ∧
      host.encoding.canonical (.auditEntry x) = line := by
  refine foldlM_invariant (P := fun seen _ => ∀ line ∈ seen, ∃ x,
    ValidContract host.encoding (.auditEntry x) ∧
      host.encoding.canonical (.auditEntry x) = line) (fun _ hl => by cases hl) ?_ h
  intro seen line s s' hseen hstep l hl
  obtain ⟨x, hx, rfl⟩ := scanLine_eq_ok.1 hstep
  rcases List.mem_append.1 hl with hl | hl
  · exact hseen l hl
  · obtain ⟨hvalid, hcanonical, -⟩ := hx.proved rfl
    exact ⟨x, hvalid, hcanonical.trans (List.mem_singleton.1 hl).symm⟩

/-! ## One segment -/

/-- What one segment must satisfy before its lines are scanned. -/
structure SegmentAccepted (limits : AuditLimits) (vouched : Option RotationDescriptor)
    (scan : ChainScan) (data : Bytes) : Prop where
  closed : data.getLast? = some 10
  packed : ∀ previous, scan.previousSegmentBytes = some previous →
    limits.maximumSegmentBytes < previous + ((splitLines data).head?.getD []).length
  vouched : ∀ d, vouched = some d →
    d.firstSequence = scan.sequence ∧ d.predecessorEntryDigest = scan.terminal

theorem option_all_iff {α : Type} {p : α → Bool} {o : Option α} :
    o.all p = true ↔ ∀ a, o = some a → p a = true := by
  cases o <;> simp

theorem scanSegment_eq_ok {archive : ArchivePrefix host.encoding} {segment : Segment} :
    scanSegment host limits query archive scan segment = .ok scan' ↔
      SegmentAccepted limits (vouchedDescriptor host archive segment.number) scan segment.data ∧
      ∃ scanned,
        (splitLines segment.data).foldlM
          (scanLine host query archive.head.isSome
            (vouchedDescriptor host archive segment.number).isSome)
          (scan.allocate (scan.allocated + segment.allocatedBytes)) = .ok scanned ∧
        scan' = scanned.close (vouchedDescriptor host archive segment.number)
          segment.data.length := by
  unfold scanSegment
  simp only [bind_eq_ok, require_eq_ok, decide_eq_true_eq, pure_eq_ok, option_all_iff,
    Bool.and_eq_true]
  constructor
  · rintro ⟨-, hclosed, -, hpacked, -, hvouched, scanned, hlines, rfl⟩
    exact ⟨⟨hclosed, hpacked, hvouched⟩, scanned, hlines, rfl⟩
  · rintro ⟨⟨hclosed, hpacked, hvouched⟩, scanned, hlines, rfl⟩
    exact ⟨(), hclosed, (), hpacked, (), hvouched, scanned, hlines, rfl⟩

theorem scanSegment_spec {archive : ArchivePrefix host.encoding} {segment : Segment}
    {xs : List AuditEntry}
    (hscan : ScanOf query scan xs)
    (h : scanSegment host limits query archive scan segment = .ok scan') :
    ScanOf query scan' (xs ++ (splitLines segment.data).filterMap (lineEntry host)) ∧
      scan'.allocated = scan.allocated + segment.allocatedBytes ∧
      scan'.previousSegmentBytes = some segment.data.length := by
  obtain ⟨-, scanned, hlines, rfl⟩ := scanSegment_eq_ok.1 h
  have hstart : ScanOf query (scan.allocate (scan.allocated + segment.allocatedBytes)) xs :=
    ⟨hscan.count, hscan.correlations, hscan.matched⟩
  have hspec := scanLines_spec hstart hlines
  exact ⟨⟨hspec.count, hspec.correlations, hspec.matched⟩, scanLines_allocated_eq hlines, rfl⟩

/-- The pass over all segments has seen exactly the entries of the chain. -/
theorem scanChain_spec {archive : ArchivePrefix host.encoding} {segments : List Segment}
    (h : scanChain host limits query archive segments = .ok scan) :
    ScanOf query scan (chainEntries host segments) ∧
      scan.allocated = archive.allocatedBytes + (segments.map Segment.allocatedBytes).sum ∧
      scan.previousSegmentBytes = segments.getLast?.map fun s => s.data.length := by
  unfold scanChain at h
  refine foldlM_invariant (P := fun seen s => ScanOf query s (chainEntries host seen) ∧
    s.allocated = archive.allocatedBytes + (seen.map Segment.allocatedBytes).sum ∧
    s.previousSegmentBytes = seen.getLast?.map fun s => s.data.length) ?_ ?_ h
  · refine ⟨⟨rfl, ?_, ?_⟩, rfl, rfl⟩
    · intro c hc
      cases hc
    · intro m hm
      cases hm
  · rintro seen segment s s' ⟨hs, hallocated, -⟩ hstep
    obtain ⟨hspec, hsum, hprevious⟩ := scanSegment_spec hs hstep
    refine ⟨?_, ?_, ?_⟩
    · rw [chainEntries_eq, List.flatMap_append, List.filterMap_append]
      simpa [chainEntries_eq] using hspec
    · rw [hsum, hallocated, List.map_append, List.sum_append]
      simp [Nat.add_assoc]
    · rw [hprevious, List.getLast?_append]
      rfl

end StaticHostAgent.Audit
