import StaticHostAgent.Audit.AppendInvariant

/-!
# What a readable chain is

A chain that passes the validation pass is a list of canonical lines of valid entries with
contiguous sequence numbers, each naming the digest of the line before it, in canonically packed and
numbered segments (`chainSound_of_read`). Segments that were archived, or sealed for archival, are
covered through their verified descriptors.
-/

set_option autoImplicit false

namespace StaticHostAgent.Audit

open Library Contracts Host

variable {host : AuditHost} {limits : AuditLimits}
  {archive : ArchivePrefix host.encoding} {query : ChainQuery} {scan scan' : ChainScan}
  {xs : List AuditEntry} {e : Encoding}

/-! ## Linked entries -/

/-- The entries continue a chain of `sequence` entries that ends in the digest `terminal`. -/
def Linked (e : Encoding) (sequence : Nat) (terminal : Option Digest) : List AuditEntry → Prop
  | [] => True
  | x :: xs => x.sequence = sequence ∧ x.previousEntryDigest = terminal ∧
      Linked e (sequence + 1) (some (auditEntryDigest e x)) xs

/-- The terminal digest behind the entries. -/
def terminalBehind (e : Encoding) (terminal : Option Digest) : List AuditEntry → Option Digest
  | [] => terminal
  | x :: xs => terminalBehind e (some (auditEntryDigest e x)) xs

theorem terminalBehind_append {xs ys : List AuditEntry} {t : Option Digest} :
    terminalBehind e t (xs ++ ys) = terminalBehind e (terminalBehind e t xs) ys := by
  induction xs generalizing t with
  | nil => rfl
  | cons x xs ih => exact ih

theorem linked_append {xs ys : List AuditEntry} {n : Nat} {t : Option Digest} :
    Linked e n t (xs ++ ys) ↔
      Linked e n t xs ∧ Linked e (n + xs.length) (terminalBehind e t xs) ys := by
  induction xs generalizing n t with
  | nil => simp [Linked, terminalBehind]
  | cons x xs ih =>
      simp only [List.cons_append, Linked, terminalBehind, ih, List.length_cons, and_assoc]
      rw [show n + 1 + xs.length = n + (xs.length + 1) by omega]

/-- The entries of a chain are numbered by their position. -/
theorem Linked.sequence {n : Nat} {t : Option Digest} (h : Linked e n t xs) :
    xs.map AuditEntry.sequence = List.range' n xs.length := by
  induction xs generalizing n t with
  | nil => rfl
  | cons x xs ih =>
      obtain ⟨hx, -, hrest⟩ := h
      rw [List.map_cons, hx, ih hrest, List.length_cons, List.range'_succ]

/-- Lines that are exactly the canonical lines of valid entries. -/
structure CanonicalLines (e : Encoding) (lines : List Bytes) (xs : List AuditEntry) : Prop where
  lines : lines = xs.map fun x => e.canonical (.auditEntry x)
  valid : ∀ x ∈ xs, ValidContract e (.auditEntry x)

theorem CanonicalLines.nil (e : Encoding) : CanonicalLines e [] [] :=
  ⟨rfl, fun _ hx => nomatch hx⟩

theorem CanonicalLines.append {ls ms : List Bytes} {xs ys : List AuditEntry}
    (h : CanonicalLines e ls xs) (k : CanonicalLines e ms ys) :
    CanonicalLines e (ls ++ ms) (xs ++ ys) := by
  refine ⟨by rw [h.lines, k.lines, List.map_append], fun x hx => ?_⟩
  rcases List.mem_append.1 hx with hx | hx
  · exact h.valid x hx
  · exact k.valid x hx

theorem CanonicalLines.singleton {x : AuditEntry} (h : ValidContract e (.auditEntry x)) :
    CanonicalLines e [e.canonical (.auditEntry x)] [x] :=
  ⟨rfl, fun _ hy => List.mem_singleton.1 hy ▸ h⟩

theorem CanonicalLines.clean {ls : List Bytes} (h : CanonicalLines e ls xs) :
    ∀ l ∈ ls, CleanLine l := by
  intro l hl
  rw [h.lines] at hl
  obtain ⟨x, -, rfl⟩ := List.mem_map.1 hl
  exact e.canonical_clean _

theorem CanonicalLines.entries {ls : List Bytes} (h : CanonicalLines host.encoding ls xs) :
    ls.filterMap (lineEntry host) = xs := by
  rw [h.lines, List.filterMap_map]
  have hentry : ∀ x : AuditEntry,
      (lineEntry host ∘ fun x => host.encoding.canonical (.auditEntry x)) x = some x := by
    intro x
    show lineEntry host (host.encoding.canonical (.auditEntry x)) = some x
    unfold lineEntry
    rw [host.encoding.decode_canonical]
  rw [show (lineEntry host ∘ fun x => host.encoding.canonical (.auditEntry x)) = some from
    funext hentry, List.filterMap_some]

/-! ## Verified segments -/

/-- The proof over a closed segment has seen the entries `xs` in the lines. -/
structure SegmentChainOf (e : Encoding) (chain : SegmentChain) (lines : List Bytes)
    (xs : List AuditEntry) : Prop where
  canonical : CanonicalLines e lines xs
  count : chain.count = xs.length
  linked : Linked e chain.first chain.predecessor xs
  terminal : xs ≠ [] → chain.terminal = terminalBehind e chain.predecessor xs

theorem inspectLine_step {chain chain' : SegmentChain} {seen : List Bytes} {line : Bytes}
    (h : SegmentChainOf e chain seen xs)
    (hstep : inspectLine e chain line = .ok chain') :
    ∃ x, SegmentChainOf e chain' (seen ++ [line]) (xs ++ [x]) := by
  unfold inspectLine SegmentChain.add at hstep
  simp only [bind_eq_ok, liftContract_eq_ok, decodeAuditEntry_eq_ok, canonicalAuditEntry_eq_ok,
    require_eq_ok, pure_eq_ok, Bool.and_eq_true, decide_eq_true_eq] at hstep
  obtain ⟨x, -, ⟨next, raw⟩, ⟨r, ⟨hvalid, rfl⟩, -, -, -, ⟨hsequence, hprevious⟩, -, -, -, -, hnext⟩,
    -, hcanonical, rfl⟩ := hstep
  obtain ⟨rfl, rfl⟩ := Prod.mk.inj hnext
  have hline := CanonicalLines.singleton hvalid
  rw [show e.canonical (.auditEntry x) = line from hcanonical] at hline
  refine ⟨x, h.canonical.append hline, ?_, ?_, ?_⟩
  · rw [List.length_append, List.length_singleton, ← h.count]
  · cases xs with
    | nil =>
        have hzero : chain.count = 0 := h.count
        simp only [hzero, if_true] at hsequence hprevious ⊢
        exact ⟨rfl, rfl, trivial⟩
    | cons y ys =>
        have hcount : chain.count ≠ 0 := by rw [h.count]; exact Nat.succ_ne_zero _
        simp only [if_neg hcount] at hsequence hprevious ⊢
        refine linked_append.2 ⟨h.linked, ?_, ?_, trivial⟩
        · rw [hsequence, h.count]
        · rw [hprevious, h.terminal (List.cons_ne_nil _ _)]
  · intro _
    rw [terminalBehind_append]
    rfl

theorem inspectSegment_spec {raw : Bytes} {chain : SegmentChain}
    (h : inspectSegment e raw = .ok chain) :
    raw.getLast? = some 10 ∧ ∃ xs, SegmentChainOf e chain (splitLines raw) xs := by
  unfold inspectSegment at h
  simp only [bind_eq_ok, require_eq_ok, Bool.and_eq_true, decide_eq_true_eq] at h
  obtain ⟨-, ⟨-, hclosed⟩, hfold⟩ := h
  refine ⟨hclosed, ?_⟩
  have hchain : ∃ xs, SegmentChainOf e chain (splitNewlines raw) xs := by
    refine foldlM_invariant (P := fun seen c => ∃ xs, SegmentChainOf e c seen xs)
      ⟨[], CanonicalLines.nil e, rfl, trivial, fun h => absurd rfl h⟩ ?_ hfold
    rintro seen line c c' ⟨xs, hc⟩ hstep
    obtain ⟨x, hx⟩ := inspectLine_step hc hstep
    exact ⟨xs ++ [x], hx⟩
  obtain ⟨xs, hxs⟩ := hchain
  have hsplit : splitLines raw = splitNewlines raw := by
    conv_lhs => rw [← flatten_splitNewlines raw]
    exact splitLines_flatten hxs.canonical.clean
  exact ⟨xs, hsplit ▸ hxs⟩

/-- A verified segment consists of the canonical lines of entries that its descriptor chains. -/
theorem verifySegment_spec {d : RotationDescriptor} {raw : Bytes}
    (h : verifySegment e d raw = .ok ()) :
    ∃ xs, CanonicalLines e (splitLines raw) xs ∧
      Linked e d.firstSequence d.predecessorEntryDigest xs ∧
      some d.terminalEntryDigest = terminalBehind e d.predecessorEntryDigest xs := by
  unfold verifySegment at h
  simp only [bind_eq_ok, require_eq_ok, Bool.and_eq_true, decide_eq_true_eq] at h
  obtain ⟨-, -, chain, hchain, ⟨⟨⟨-, hfirst⟩, -⟩, hpredecessor⟩, hterminal⟩ := h
  obtain ⟨hclosed, xs, hxs⟩ := inspectSegment_spec hchain
  have hne : xs ≠ [] := by
    rintro rfl
    have hflat := flatten_splitLines raw
    rw [hxs.canonical.lines] at hflat
    rw [← hflat] at hclosed
    cases hclosed
  refine ⟨xs, hxs.canonical, ?_, ?_⟩
  · rw [← hfirst, ← hpredecessor]
    exact hxs.linked
  · rw [← hterminal, ← hpredecessor]
    exact hxs.terminal hne

theorem requireIndexes_verified {lineage : Lineage} {accepted segments : List ArchivedSegment}
    (h : requireIndexes e lineage accepted segments = .ok ()) :
    ∀ s ∈ segments, verifySegment e s.descriptor s.data = .ok () := by
  induction segments generalizing accepted with
  | nil =>
      intro s hs
      cases hs
  | cons segment rest ih =>
      unfold requireIndexes at h
      simp only [bind_eq_ok] at h
      obtain ⟨-, -, ⟨⟩, hverified, hrest⟩ := h
      intro s hs
      rcases List.mem_cons.1 hs with rfl | hs
      · exact hverified
      · exact ih hrest s hs

/-- The descriptor that vouches for a segment was verified against its bytes. -/
theorem vouched_verified {a : AuditStore} {scan : LocalScan}
    (h : SegmentsRead host limits a archive scan) {i : Nat} {segment : Segment}
    (hsegment : scan.segments[i]? = some segment) {d : RotationDescriptor}
    (hd : vouchedDescriptor host archive i = some d) :
    verifySegment host.encoding d segment.data = .ok () := by
  unfold vouchedDescriptor at hd
  cases harchived : archive.segments[i]? with
  | some old =>
      rw [harchived] at hd
      obtain rfl := Option.some.inj hd
      have hdata := h.localScanned.archived i old harchived
      rw [hsegment] at hdata
      obtain ⟨lineage, hindexes⟩ := archive.contiguous
      have hverified := requireIndexes_verified hindexes old (List.mem_of_getElem? harchived)
      rw [← Option.some.inj hdata] at hverified
      exact hverified
  | none =>
      rw [harchived] at hd
      simp only at hd
      obtain ⟨hintent, hnumber⟩ := Option.filter_eq_some_iff.1 hd
      have hpending := h.pending
      unfold requirePendingLocalSegment at hpending
      rw [hintent] at hpending
      simp only at hpending
      have hi : d.segmentNumber = i := of_decide_eq_true hnumber
      rw [if_neg (by rw [hi]; exact not_lt.2 (List.getElem?_eq_none_iff.1 harchived)), hi,
        hsegment] at hpending
      simp only [bind_eq_ok, mapError_eq_ok] at hpending
      obtain ⟨-, -, hverified⟩ := hpending
      exact hverified

/-! ## Sound chains -/

/-- Canonical lines of valid, linked entries in contiguous, canonically packed segments. -/
structure ChainSound (host : AuditHost) (limits : AuditLimits) (segments : List Segment) :
    Prop where
  numbered : segments.map Segment.number = List.range segments.length
  canonical : CanonicalLines host.encoding (segments.flatMap fun s => splitLines s.data)
    (chainEntries host segments)
  linked : Linked host.encoding 0 none (chainEntries host segments)
  packed : segments.IsChain fun s t =>
    limits.maximumSegmentBytes < s.data.length + ((splitLines t.data).head?.getD []).length

/-- The lines of a segment nobody vouches for are proved by the pass itself. -/
theorem scanLines_linked {headed : Bool} {lines : List Bytes}
    (h : lines.foldlM (scanLine host query headed false) scan = .ok scan') :
    ∃ xs, CanonicalLines host.encoding lines xs ∧
      Linked host.encoding scan.sequence scan.terminal xs ∧
      scan'.sequence = scan.sequence + xs.length ∧
      scan'.terminal = terminalBehind host.encoding scan.terminal xs := by
  refine foldlM_invariant (P := fun seen s => ∃ xs, CanonicalLines host.encoding seen xs ∧
    Linked host.encoding scan.sequence scan.terminal xs ∧
    s.sequence = scan.sequence + xs.length ∧
    s.terminal = terminalBehind host.encoding scan.terminal xs)
    ⟨[], CanonicalLines.nil _, trivial, rfl, rfl⟩ ?_ h
  rintro seen line s s' ⟨xs, hcanonical, hlinked, hsequence, hterminal⟩ hstep
  obtain ⟨x, hx, rfl⟩ := scanLine_eq_ok.1 hstep
  obtain ⟨hvalid, hline, hnext, hprevious⟩ := hx.proved rfl
  have hsingle := CanonicalLines.singleton hvalid
  rw [hline] at hsingle
  refine ⟨xs ++ [x], hcanonical.append hsingle, ?_, ?_, ?_⟩
  · exact linked_append.2 ⟨hlinked, hnext.trans hsequence, hprevious.trans hterminal, trivial⟩
  · show s.sequence + 1 = _
    rw [hsequence, List.length_append, List.length_singleton, Nat.add_assoc]
  · rw [terminalBehind_append]
    rfl

/-- One segment continues the chain. -/
theorem scanSegment_linked {segment : Segment}
    (hverified : ∀ d, vouchedDescriptor host archive segment.number = some d →
      verifySegment host.encoding d segment.data = .ok ())
    (h : scanSegment host limits query archive scan segment = .ok scan') :
    ∃ xs, CanonicalLines host.encoding (splitLines segment.data) xs ∧
      Linked host.encoding scan.sequence scan.terminal xs ∧
      scan'.terminal = terminalBehind host.encoding scan.terminal xs := by
  obtain ⟨ha, scanned, hlines, rfl⟩ := scanSegment_eq_ok.1 h
  cases hvouched : vouchedDescriptor host archive segment.number with
  | none =>
      rw [hvouched] at hlines
      obtain ⟨xs, hcanonical, hlinked, -, hterminal⟩ := scanLines_linked hlines
      exact ⟨xs, hcanonical, hlinked, hterminal⟩
  | some d =>
      obtain ⟨xs, hcanonical, hlinked, hterminal⟩ := verifySegment_spec (hverified d hvouched)
      obtain ⟨hfirst, hpredecessor⟩ := ha.vouched d hvouched
      rw [hfirst, hpredecessor] at hlinked
      rw [hpredecessor] at hterminal
      exact ⟨xs, hcanonical, hlinked, hterminal⟩

/-- The chain read so far, beside the pass over it. -/
structure SoundSoFar (host : AuditHost) (limits : AuditLimits) (query : ChainQuery)
    (seen : List Segment) (scan : ChainScan) : Prop where
  canonical : CanonicalLines host.encoding (seen.flatMap fun s => splitLines s.data)
    (chainEntries host seen)
  linked : Linked host.encoding 0 none (chainEntries host seen)
  scanned : ScanOf query scan (chainEntries host seen)
  terminal : scan.terminal = terminalBehind host.encoding none (chainEntries host seen)
  previous : scan.previousSegmentBytes = seen.getLast?.map fun s => s.data.length
  packed : seen.IsChain fun s t =>
    limits.maximumSegmentBytes < s.data.length + ((splitLines t.data).head?.getD []).length

theorem SoundSoFar.step {seen : List Segment} {segment : Segment}
    (h : SoundSoFar host limits query seen scan)
    (hverified : ∀ d, vouchedDescriptor host archive segment.number = some d →
      verifySegment host.encoding d segment.data = .ok ())
    (hstep : scanSegment host limits query archive scan segment = .ok scan') :
    SoundSoFar host limits query (seen ++ [segment]) scan' := by
  obtain ⟨xs, hcanonical, hlinked, hterminal⟩ := scanSegment_linked hverified hstep
  obtain ⟨hspec, -, hprevious⟩ := scanSegment_spec h.scanned hstep
  obtain ⟨ha, -⟩ := scanSegment_eq_ok.1 hstep
  have hentries : chainEntries host (seen ++ [segment]) = chainEntries host seen ++ xs := by
    rw [chainEntries_eq, List.flatMap_append, List.filterMap_append, ← chainEntries_eq]
    simp [hcanonical.entries]
  rw [h.scanned.count, h.terminal] at hlinked
  rw [h.terminal] at hterminal
  rw [hcanonical.entries] at hspec
  refine ⟨?_, ?_, ?_, ?_, ?_, ?_⟩
  · rw [hentries, List.flatMap_append]
    simpa using h.canonical.append hcanonical
  · rw [hentries]
    exact linked_append.2 ⟨h.linked, by rwa [Nat.zero_add]⟩
  · rw [hentries]
    exact hspec
  · rw [hentries, terminalBehind_append]
    exact hterminal
  · rw [hprevious, List.getLast?_append]
    rfl
  · refine List.isChain_append.2 ⟨h.packed, List.isChain_singleton _, ?_⟩
    intro s hs t ht
    obtain rfl : segment = t := by simpa using ht
    refine ha.packed s.data.length ?_
    rw [h.previous, Option.mem_def.1 hs]
    rfl

/-- A pass over a complete chain has proved it. -/
theorem soundSoFar_of_read {a : AuditStore} {segments : List Segment} {scan : ChainScan}
    (hread : readSegments host limits a = .ok (archive, segments))
    (h : scanChain host limits query archive segments = .ok scan) :
    SoundSoFar host limits query segments scan := by
  obtain ⟨local_, hr, rfl⟩ := readSegments_eq_ok.1 hread
  have hnumbered := hr.localScanned.numbered
  have hverified : ∀ segment ∈ local_.segments, ∀ d,
      vouchedDescriptor host archive segment.number = some d →
        verifySegment host.encoding d segment.data = .ok () := by
    intro segment hsegment d hd
    obtain ⟨i, hi⟩ := List.mem_iff_getElem?.1 hsegment
    have hnumber : segment.number = i := by
      have hget := congrArg (fun l => l[i]?) hnumbered
      simp only [List.getElem?_map, hi, Option.map_some] at hget
      rw [List.getElem?_range (List.getElem?_eq_some_iff.1 hi).1] at hget
      exact Option.some.inj hget
    exact vouched_verified hr hi (hnumber ▸ hd)
  have hstart : SoundSoFar host limits query []
      ⟨0, none, archive.allocatedBytes, none, [], none, false, false, false, []⟩ := by
    refine ⟨CanonicalLines.nil _, trivial, ⟨rfl, ?_, ?_⟩, rfl, rfl, List.isChain_nil⟩
    · intro c hc
      cases hc
    · intro m hm
      cases hm
  refine foldlM_invariant_mem (P := SoundSoFar host limits query) hstart ?_ h
  intro seen segment hmem s s' hs hstep
  exact hs.step (hverified segment hmem) hstep

/-- Every chain that passes the validation pass is sound. -/
theorem chainSound_of_read {a : AuditStore} {segments : List Segment} {scan : ChainScan}
    (hread : readSegments host limits a = .ok (archive, segments))
    (h : scanChain host limits query archive segments = .ok scan) :
    ChainSound host limits segments := by
  obtain ⟨local_, hr, hsegments⟩ := readSegments_eq_ok.1 hread
  have hnumbered := hr.localScanned.numbered
  rw [← hsegments] at hnumbered
  have hsound := soundSoFar_of_read hread h
  exact ⟨hnumbered, hsound.canonical, hsound.linked, hsound.packed⟩

/-! ## Distinct correlations -/

/-- Asked for `c`, the pass has matched exactly the entries that carry it, and at most one. -/
def MatchedOnce (c : Uuid7) (scan : ChainScan) (xs : List AuditEntry) : Prop :=
  (xs.map AuditEntry.correlationId).count c = if scan.matchingEntry.isSome then 1 else 0

theorem MatchedOnce.line {c : Uuid7} {headed archived : Bool} {line : Bytes}
    (h : MatchedOnce c scan xs)
    (hline : scanLine host (.correlation c) headed archived scan line = .ok scan') :
    MatchedOnce c scan' (xs ++ [line].filterMap (lineEntry host)) := by
  obtain ⟨x, hx, rfl⟩ := scanLine_eq_ok.1 hline
  unfold MatchedOnce at h ⊢
  rw [List.filterMap_cons, hx.lineEntry_eq, List.filterMap_nil, List.map_append, List.count_append,
    h]
  have hmatching : ((scan.advance host.encoding (.correlation c) headed archived x).matchingEntry) =
      if some c = some x.correlationId then some x else scan.matchingEntry := rfl
  rw [hmatching]
  by_cases hc : x.correlationId = c
  · have hnone := hx.unmatched (congrArg some hc.symm)
    rw [hnone, if_pos (congrArg some hc.symm)]
    simp [hc]
  · rw [if_neg fun h => hc (Option.some.inj h).symm]
    simp [hc]

theorem MatchedOnce.segment {c : Uuid7} {segment : Segment} (h : MatchedOnce c scan xs)
    (hsegment : scanSegment host limits (.correlation c) archive scan segment = .ok scan') :
    MatchedOnce c scan' (xs ++ (splitLines segment.data).filterMap (lineEntry host)) := by
  obtain ⟨-, scanned, hlines, rfl⟩ := scanSegment_eq_ok.1 hsegment
  have hscanned : MatchedOnce c scanned
      (xs ++ (splitLines segment.data).filterMap (lineEntry host)) := by
    refine foldlM_invariant (P := fun seen s =>
      MatchedOnce c s (xs ++ seen.filterMap (lineEntry host))) ?_ ?_ hlines
    · rw [List.filterMap_nil, List.append_nil]
      exact h
    intro seen line s s' hs hstep
    rw [List.filterMap_append, ← List.append_assoc]
    exact hs.line hstep
  exact hscanned

/-- In a readable chain no correlation is carried twice. -/
theorem distinct_of_readable {a : AuditStore} {segments : List Segment}
    (hread : readSegments host limits a = .ok (archive, segments))
    (hreadable : Readable host limits a) :
    ((chainEntries host segments).map AuditEntry.correlationId).Nodup := by
  obtain ⟨archive', segments', hread', hall⟩ := hreadable
  have hsame := hread.symm.trans hread'
  cases hsame
  refine List.nodup_iff_count.2 fun c => ?_
  obtain ⟨scan, hvalidated⟩ := hall (.correlation c)
  obtain ⟨hscan, -⟩ := validateChainRecords_eq_ok.1 hvalidated
  have hmatched : MatchedOnce c scan (chainEntries host segments) := by
    refine foldlM_invariant (P := fun seen s => MatchedOnce c s (chainEntries host seen)) ?_ ?_
      hscan
    · exact List.count_nil
    intro seen segment s s' hs hstep
    rw [chainEntries_eq, List.flatMap_append, List.filterMap_append, ← chainEntries_eq]
    simpa using hs.segment hstep
  rw [hmatched]
  split <;> omega

end StaticHostAgent.Audit
