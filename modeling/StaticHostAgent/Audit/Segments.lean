import StaticHostAgent.Audit.Soundness

/-!
# The segments after a write

The local files end in the last segment of the chain (`LocalScanned`), so writing the planned
segment changes the list of segments at its end only: `readSegments_write`.
-/

set_option autoImplicit false

namespace StaticHostAgent.Audit

open Library Contracts Host

variable {host : AuditHost} {limits : AuditLimits}
  {archive : ArchivePrefix host.encoding} {scan : LocalScan}

/-! ## The scan of the local files -/

/-- What a local file must satisfy when the scan reaches it. -/
structure LocalAccepted (host : AuditHost) (limits : AuditLimits)
    (archive : ArchivePrefix host.encoding) (scan : LocalScan) (number : Nat) (data : Bytes) :
    Prop where
  position : number ≤ scan.segments.length
  successor : ∀ p, scan.previousNumber = some p → number = p + 1
  size : data.length ≤ limits.maximumSegmentBytes
  block : 0 < host.allocation.allocated data.length
  logical : scan.logicalBytes + data.length ≤ limits.maximumAdministratorBytes
  ceiling : scan.allocatedBytes + host.allocation.allocated data.length ≤
    limits.maximumAdministratorBytes
  overlap : number < archive.segments.length →
    scan.segments[number]?.map Segment.data = some data

/-- The segment a local file is read as. -/
def localSegment (host : AuditHost) (number : Nat) (data : Bytes) : Segment :=
  ⟨number, data, host.allocation.allocated data.length, false⟩

/-- The scan behind a local file. -/
def LocalScan.take (host : AuditHost) (archive : ArchivePrefix host.encoding) (scan : LocalScan)
    (number : Nat) (data : Bytes) : LocalScan :=
  ⟨some number, scan.logicalBytes + data.length,
    scan.allocatedBytes + host.allocation.allocated data.length,
    if number < archive.segments.length then scan.segments.set number (localSegment host number data)
    else scan.segments ++ [localSegment host number data]⟩

theorem scanLocalSegment_eq_ok {scan scan' : LocalScan} {number : Nat} {data : Bytes} :
    scanLocalSegment host limits archive scan (number, data) = .ok scan' ↔
      LocalAccepted host limits archive scan number data ∧
        scan' = scan.take host archive number data := by
  unfold scanLocalSegment LocalScan.take
  simp only [bind_eq_ok, require_eq_ok, Bool.and_eq_true, decide_eq_true_eq, option_all_iff,
    Nat.max_le]
  by_cases hnumber : number < archive.segments.length
  · rw [if_pos hnumber, if_pos hnumber]
    simp only [bind_eq_ok, require_eq_ok, decide_eq_true_eq, pure_eq_ok]
    constructor
    · rintro ⟨-, ⟨hposition, hsuccessor⟩, -, ⟨hsize, hblock⟩, -, ⟨hlogical, hceiling⟩, -, hdata,
        rfl⟩
      exact ⟨⟨hposition, hsuccessor, hsize, hblock, hlogical, hceiling, fun _ => hdata⟩, rfl⟩
    · rintro ⟨⟨hposition, hsuccessor, hsize, hblock, hlogical, hceiling, hdata⟩, rfl⟩
      exact ⟨(), ⟨hposition, hsuccessor⟩, (), ⟨hsize, hblock⟩, (), ⟨hlogical, hceiling⟩, (),
        hdata hnumber, rfl⟩
  · rw [if_neg hnumber, if_neg hnumber]
    simp only [pure_eq_ok]
    constructor
    · rintro ⟨-, ⟨hposition, hsuccessor⟩, -, ⟨hsize, hblock⟩, -, ⟨hlogical, hceiling⟩, rfl⟩
      exact ⟨⟨hposition, hsuccessor, hsize, hblock, hlogical, hceiling,
        fun h => absurd h hnumber⟩, rfl⟩
    · rintro ⟨⟨hposition, hsuccessor, hsize, hblock, hlogical, hceiling, -⟩, rfl⟩
      exact ⟨(), ⟨hposition, hsuccessor⟩, (), ⟨hsize, hblock⟩, (), ⟨hlogical, hceiling⟩, rfl⟩

/-- Replacing one element exchanges its weight in a sum. -/
theorem sum_map_set {α : Type} (f : α → Nat) {l : List α} {i : Nat} {a : α} (h : l[i]? = some a)
    (b : α) : ((l.set i b).map f).sum + f a = (l.map f).sum + f b := by
  induction l generalizing i with
  | nil => cases h
  | cons x l ih =>
      cases i with
      | zero =>
          obtain rfl : x = a := by simpa using h
          simp only [List.set_cons_zero, List.map_cons, List.sum_cons]
          omega
      | succ i =>
          have := ih (i := i) (by simpa using h)
          simp only [List.set_cons_succ, List.map_cons, List.sum_cons]
          omega

/-- The scan of the local files has collected these segments. -/
structure LocalScanned (host : AuditHost) (archive : ArchivePrefix host.encoding)
    (files : List (Nat × Bytes)) (scan : LocalScan) : Prop where
  numbered : scan.segments.map Segment.number = List.range scan.segments.length
  covers : archive.segments.length ≤ scan.segments.length
  previous : scan.previousNumber = files.getLast?.map Prod.fst
  files_lt : ∀ file ∈ files, file.1 < scan.segments.length
  count : ∀ p, scan.previousNumber = some p → files.length ≤ p + 1
  tail : archive.segments.length < scan.segments.length →
    scan.previousNumber = some (scan.segments.length - 1)
  allocation : scan.allocatedBytes =
    archive.allocatedBytes + (scan.segments.map Segment.allocatedBytes).sum
  unread : ∀ i s, scan.segments[i]? = some s → (∀ p, scan.previousNumber = some p → p < i) →
    s.allocatedBytes = 0
  logical : scan.logicalBytes ≤ scan.allocatedBytes
  archived : ∀ (i : Nat) (segment : ArchivedSegment), archive.segments[i]? = some segment →
    scan.segments[i]?.map Segment.data = some segment.data

theorem LocalScanned.start (archive : ArchivePrefix host.encoding) :
    LocalScanned host archive []
      ⟨none, archive.allocatedBytes, archive.allocatedBytes, archivedSegments host archive⟩ := by
  have hlength : (archivedSegments host archive).length = archive.segments.length := by
    simp [archivedSegments]
  have hzero : ∀ s ∈ archivedSegments host archive, s.allocatedBytes = 0 := by
    intro s hs
    obtain ⟨i, hi, rfl⟩ := List.mem_mapIdx.1 hs
    rfl
  refine ⟨?_, hlength.ge, rfl, ?_, ?_, ?_, ?_, ?_, le_rfl, ?_⟩
  · refine List.ext_getElem (by simp) fun i h1 h2 => ?_
    simp [archivedSegments]
  · intro file hfile
    cases hfile
  · intro p hp
    cases hp
  · intro h
    exact absurd h (by rw [hlength]; exact lt_irrefl _)
  · show archive.allocatedBytes = _
    rw [List.sum_eq_zero fun n hn => ?_, Nat.add_zero]
    obtain ⟨s, hs, rfl⟩ := List.mem_map.1 hn
    exact hzero s hs
  · intro i s hs _
    exact hzero s (List.mem_of_getElem? hs)
  · intro i segment hi
    simp only [archivedSegments, List.getElem?_mapIdx, hi, Option.map_some]

/-- A local file inside the archived prefix is read while nothing beyond the prefix is. -/
theorem LocalScanned.inside {files : List (Nat × Bytes)} {number : Nat} {data : Bytes}
    (h : LocalScanned host archive files scan)
    (ha : LocalAccepted host limits archive scan number data)
    (hnumber : number < archive.segments.length) :
    scan.segments.length = archive.segments.length := by
  by_contra hne
  have hcovers := h.covers
  have := ha.successor _ (h.tail (by omega))
  omega

/-- A local file beyond the archived prefix extends the segments by one. -/
theorem LocalScanned.beyond {files : List (Nat × Bytes)} {number : Nat} {data : Bytes}
    (h : LocalScanned host archive files scan)
    (ha : LocalAccepted host limits archive scan number data)
    (hnumber : ¬ number < archive.segments.length) : number = scan.segments.length := by
  have hcovers := h.covers
  have hposition := ha.position
  by_cases htail : archive.segments.length < scan.segments.length
  · have := ha.successor _ (h.tail htail)
    omega
  · omega

theorem LocalScanned.step {files : List (Nat × Bytes)} {number : Nat} {data : Bytes}
    (h : LocalScanned host archive files scan)
    (ha : LocalAccepted host limits archive scan number data) :
    LocalScanned host archive (files ++ [(number, data)]) (scan.take host archive number data) := by
  have hle := host.allocation.le_allocated data.length
  have hlogical := h.logical
  have hprevious : (scan.take host archive number data).previousNumber =
      (files ++ [(number, data)]).getLast?.map Prod.fst := by
    simp [LocalScan.take]
  have hcount : ∀ p, (scan.take host archive number data).previousNumber = some p →
      (files ++ [(number, data)]).length ≤ p + 1 := by
    intro p hp
    -- numbers ascend by one, so the files read are never more than the last number allows
    obtain rfl : number = p := by simpa [LocalScan.take] using hp
    rw [List.length_append, List.length_singleton]
    cases hfiles : scan.previousNumber with
    | none =>
        have hnone := h.previous
        rw [hfiles, eq_comm, Option.map_eq_none_iff, List.getLast?_eq_none_iff] at hnone
        rw [hnone]
        simp
    | some p =>
        have hbound := h.count p hfiles
        have hnext := ha.successor p hfiles
        omega
  have hlog : (scan.take host archive number data).logicalBytes ≤
      (scan.take host archive number data).allocatedBytes := by
    show scan.logicalBytes + data.length ≤
      scan.allocatedBytes + host.allocation.allocated data.length
    omega
  -- a local file below the archived prefix replaces an archived segment, any other extends the list
  by_cases hnumber : number < archive.segments.length
  · have hlength := h.inside ha hnumber
    have hsegments : (scan.take host archive number data).segments =
        scan.segments.set number (localSegment host number data) := if_pos hnumber
    obtain ⟨old, hold⟩ : ∃ s, scan.segments[number]? = some s :=
      ⟨_, List.getElem?_eq_getElem (hlength ▸ hnumber)⟩
    -- an archived segment weighs nothing until its local file is read
    have hzero : old.allocatedBytes = 0 :=
      h.unread number old hold fun p hp => by have := ha.successor p hp; omega
    have holdnumber : old.number = number := by
      have := congrArg (fun l => l[number]?) h.numbered
      simp only [List.getElem?_map, hold, Option.map_some] at this
      rw [List.getElem?_range (hlength ▸ hnumber)] at this
      exact Option.some.inj this
    refine ⟨?_, ?_, hprevious, ?_, hcount, ?_, ?_, ?_, hlog, ?_⟩
    · rw [hsegments, List.length_set, ← h.numbered, List.map_set]
      refine List.ext_getElem? fun i => ?_
      rw [List.getElem?_set]
      split
      · rename_i hi
        subst hi
        rw [List.getElem?_map, hold, List.length_map]
        simp [hlength, hnumber, localSegment, holdnumber]
      · rfl
    · rw [hsegments, List.length_set]
      exact h.covers
    · rw [hsegments, List.length_set]
      intro file hfile
      rcases List.mem_append.1 hfile with hfile | hfile
      · exact h.files_lt file hfile
      · rw [List.mem_singleton.1 hfile]
        exact hlength ▸ hnumber
    · rw [hsegments, List.length_set]
      intro hlt
      omega
    · have hsum := sum_map_set Segment.allocatedBytes hold (localSegment host number data)
      rw [hsegments]
      show scan.allocatedBytes + host.allocation.allocated data.length = _
      rw [h.allocation]
      rw [hzero] at hsum
      have hlocal : (localSegment host number data).allocatedBytes =
        host.allocation.allocated data.length := rfl
      omega
    · intro i s hs hlt
      rw [hsegments] at hs
      have hi : number < i := hlt number rfl
      rw [List.getElem?_set_ne (by omega)] at hs
      exact h.unread i s hs fun p hp => by have := ha.successor p hp; omega
    · intro i segment hi
      rw [hsegments, List.getElem?_set]
      split
      · rename_i heq
        subst heq
        have hdata := h.archived number segment hi
        rw [ha.overlap hnumber] at hdata
        rw [if_pos (hlength ▸ hnumber), ← hdata]
        rfl
      · exact h.archived i segment hi
  · have hlength := h.beyond ha hnumber
    have hsegments : (scan.take host archive number data).segments =
        scan.segments ++ [localSegment host number data] := if_neg hnumber
    have hnew : (scan.segments ++ [localSegment host number data]).length =
        scan.segments.length + 1 := by simp
    refine ⟨?_, ?_, hprevious, ?_, hcount, ?_, ?_, ?_, hlog, ?_⟩
    · rw [hsegments, hnew, List.map_append, h.numbered, List.range_succ, ← hlength]
      rfl
    · rw [hsegments, hnew]
      exact h.covers.trans (Nat.le_succ _)
    · rw [hsegments, hnew]
      intro file hfile
      rcases List.mem_append.1 hfile with hfile | hfile
      · exact (h.files_lt file hfile).trans (Nat.lt_succ_self _)
      · rw [List.mem_singleton.1 hfile, hlength]
        exact Nat.lt_succ_self _
    · rw [hsegments, hnew]
      intro _
      show some number = _
      rw [hlength]
      rfl
    · rw [hsegments, List.map_append, List.sum_append]
      show scan.allocatedBytes + host.allocation.allocated data.length = _
      rw [h.allocation]
      simp [localSegment, Nat.add_assoc]
    · intro i s hs hlt
      rw [hsegments] at hs
      have hi : number < i := hlt number rfl
      rw [List.getElem?_eq_none (by rw [hnew]; omega)] at hs
      cases hs
    · intro i segment hi
      have hlt : i < archive.segments.length := (List.getElem?_eq_some_iff.1 hi).1
      rw [hsegments, List.getElem?_append_left (hlt.trans_le h.covers)]
      exact h.archived i segment hi

theorem localScanned_of_fold {files : List (Nat × Bytes)}
    (h : files.foldlM (scanLocalSegment host limits archive)
      ⟨none, archive.allocatedBytes, archive.allocatedBytes, archivedSegments host archive⟩ =
        .ok scan) : LocalScanned host archive files scan := by
  refine foldlM_invariant (P := LocalScanned host archive) (LocalScanned.start archive) ?_ h
  rintro seen ⟨number, data⟩ s s' hs hstep
  obtain ⟨ha, rfl⟩ := scanLocalSegment_eq_ok.1 hstep
  exact hs.step ha

/-! ## Reading the segments -/

/-- What a successful reading of the audit directory found. -/
structure SegmentsRead (host : AuditHost) (limits : AuditLimits) (a : AuditStore)
    (archive : ArchivePrefix host.encoding) (scan : LocalScan) : Prop where
  prefix_read : readArchivePrefix host.encoding a.archive = .ok archive
  bounded : a.segments.size ≤ limits.maximumSegments
  scanned : a.segments.entries.foldlM (scanLocalSegment host limits archive)
    ⟨none, archive.allocatedBytes, archive.allocatedBytes, archivedSegments host archive⟩ = .ok scan
  tail : archive.segments ≠ [] → scan.segments.length ≠ archive.segments.length
  pending : requirePendingLocalSegment host archive scan.segments = .ok ()

theorem readSegments_eq_ok {a : AuditStore} {segments : List Segment} :
    readSegments host limits a = .ok (archive, segments) ↔
      ∃ scan, SegmentsRead host limits a archive scan ∧ segments = scan.segments := by
  unfold readSegments
  simp only [bind_eq_ok, mapError_eq_ok, require_eq_ok, decide_eq_true_eq, pure_eq_ok,
    Bool.or_eq_true, List.isEmpty_iff, Prod.mk.injEq]
  constructor
  · rintro ⟨archive', hinitial, -, hbounded, scan, hscanned, -, htail, u, hpending, rfl, rfl⟩
    exact ⟨scan, ⟨hinitial, hbounded, hscanned, fun h => htail.resolve_left h, hpending⟩, rfl⟩
  · rintro ⟨scan, ⟨hinitial, hbounded, hscanned, htail, hpending⟩, rfl⟩
    refine ⟨archive, hinitial, (), hbounded, scan, hscanned, (), ?_, (), hpending, rfl, rfl⟩
    by_cases h : archive.segments = []
    · exact Or.inl h
    · exact Or.inr (htail h)

theorem SegmentsRead.localScanned {a : AuditStore} (h : SegmentsRead host limits a archive scan) :
    LocalScanned host archive a.segments.entries scan := localScanned_of_fold h.scanned

/-- A nonempty chain ends in a local segment. -/
theorem SegmentsRead.beyond {a : AuditStore} (h : SegmentsRead host limits a archive scan)
    (hne : scan.segments ≠ []) :
    archive.segments.length < scan.segments.length := by
  have hcovers := h.localScanned.covers
  have hpos := List.length_pos_iff.2 hne
  by_cases hempty : archive.segments = []
  · rw [hempty]
    exact hpos
  · have := h.tail hempty
    omega

/-- The last segment was read from the last local file. -/
theorem SegmentsRead.last_local {a : AuditStore} (h : SegmentsRead host limits a archive scan)
    (hne : scan.segments ≠ []) :
    ∃ init before number data,
      a.segments.entries = init ++ [(number, data)] ∧
      init.foldlM (scanLocalSegment host limits archive)
        ⟨none, archive.allocatedBytes, archive.allocatedBytes, archivedSegments host archive⟩ =
          .ok before ∧
      LocalAccepted host limits archive before number data ∧
      ¬ number < archive.segments.length ∧
      scan.segments = before.segments ++ [localSegment host number data] := by
  have hlocal := h.localScanned
  have hbeyond := h.beyond hne
  have hlast := hlocal.previous
  rw [hlocal.tail hbeyond] at hlast
  obtain ⟨⟨number, data⟩, hfile, hnumber⟩ := Option.map_eq_some_iff.1 hlast.symm
  have hposition : number = scan.segments.length - 1 := hnumber
  obtain ⟨init, hentries⟩ := List.getLast?_eq_some_iff.1 hfile
  have hscanned := h.scanned
  rw [hentries] at hscanned
  obtain ⟨before, hbefore, hstep⟩ := foldlM_append_eq_ok.1 hscanned
  obtain ⟨ha, hscan⟩ := scanLocalSegment_eq_ok.1 (foldlM_singleton.1 hstep)
  have hsegments := congrArg LocalScan.segments hscan
  rw [LocalScan.take, if_neg (by omega)] at hsegments
  exact ⟨init, before, number, data, hentries, hbefore, ha, by omega, hsegments⟩

/-- The list of segments once the planned segment is written. -/
def appendedSegments (host : AuditHost) (segments : List Segment) (target : Nat) (payload : Bytes)
    (replace : Bool) : List Segment :=
  (if replace then segments.dropLast else segments) ++ [localSegment host target payload]

/-- Where the target of an append lies, and that it differs from the chain only at its end. -/
theorem appendTarget_eq_ok {segments : List Segment} {canonical payload : Bytes} {target : Nat}
    {replace : Bool} :
    appendTarget limits segments canonical = .ok (target, payload, replace) ↔
      (∃ last, segments.getLast? = some last ∧ replace = true ∧ target = last.number ∧
          payload = last.data ++ canonical ∧
          last.data.length + canonical.length ≤ limits.maximumSegmentBytes) ∨
        (replace = false ∧ target = segments.length ∧ payload = canonical ∧
          segments.length < limits.maximumSegments ∧
          ∀ last, segments.getLast? = some last →
            limits.maximumSegmentBytes < last.data.length + canonical.length) := by
  unfold appendTarget
  cases hlast : segments.getLast? with
  | none =>
      simp only [bind_eq_ok, require_eq_ok, decide_eq_true_eq, pure_eq_ok, Prod.mk.injEq]
      constructor
      · rintro ⟨-, hroom, rfl, rfl, rfl⟩
        refine Or.inr ⟨rfl, rfl, rfl, hroom, ?_⟩
        intro last h
        cases h
      · rintro (⟨last, h, -⟩ | ⟨rfl, rfl, rfl, hroom, -⟩)
        · cases h
        · exact ⟨(), hroom, rfl, rfl, rfl⟩
  | some last =>
      simp only [Option.some.injEq]
      by_cases hfits : last.data.length + canonical.length ≤ limits.maximumSegmentBytes
      · rw [if_pos hfits]
        simp only [pure_eq_ok, Prod.mk.injEq]
        constructor
        · rintro ⟨rfl, rfl, rfl⟩
          exact Or.inl ⟨last, rfl, rfl, rfl, rfl, hfits⟩
        · rintro (⟨l, rfl, rfl, rfl, rfl, -⟩ | ⟨-, -, -, -, h⟩)
          · exact ⟨rfl, rfl, rfl⟩
          · exact absurd hfits (not_le.2 (h last rfl))
      · rw [if_neg hfits]
        simp only [bind_eq_ok, require_eq_ok, decide_eq_true_eq, pure_eq_ok, Prod.mk.injEq]
        constructor
        · rintro ⟨-, hroom, rfl, rfl, rfl⟩
          refine Or.inr ⟨rfl, rfl, rfl, hroom, ?_⟩
          rintro l rfl
          exact not_le.1 hfits
        · rintro (⟨l, rfl, -, -, -, h⟩ | ⟨rfl, rfl, rfl, hroom, -⟩)
          · exact absurd h hfits
          · exact ⟨(), hroom, rfl, rfl, rfl⟩

/-- The pending rotation concerns a segment before the last, which an append leaves alone. -/
theorem requirePendingLocalSegment_extend {segments segments' : List Segment}
    (hlength : segments.length ≤ segments'.length)
    (hsame : ∀ i, i + 1 < segments.length → segments'[i]? = segments[i]?)
    (h : requirePendingLocalSegment host archive segments = .ok ()) :
    requirePendingLocalSegment host archive segments' = .ok () := by
  unfold requirePendingLocalSegment at h ⊢
  cases hintent : archive.rotationIntent with
  | none => rfl
  | some descriptor =>
      rw [hintent] at h
      simp only at h ⊢
      split
      · rfl
      · rename_i hcommitted
        rw [if_neg hcommitted] at h
        cases hsegment : segments[descriptor.segmentNumber]? with
        | none =>
            rw [hsegment] at h
            cases h
        | some segment =>
            rw [hsegment] at h
            simp only [bind_eq_ok, require_eq_ok, Bool.and_eq_true, decide_eq_true_eq,
              mapError_eq_ok] at h
            obtain ⟨-, ⟨hnext, hlocal⟩, hverified⟩ := h
            rw [hsame _ hnext, hsegment]
            simp only [bind_eq_ok, require_eq_ok, Bool.and_eq_true, decide_eq_true_eq,
              mapError_eq_ok]
            exact ⟨(), ⟨by omega, hlocal⟩, hverified⟩

/-- Reading the directory again after the planned segment was written finds the appended segments,
as long as the new allocation stays under the absolute ceiling. -/
theorem readSegments_write {a : AuditStore} {segments : List Segment} {canonical : Bytes}
    {plan : AuditAppendPlan}
    (hread : readSegments host limits a = .ok (archive, segments))
    (htarget : appendTarget limits segments canonical =
      .ok (plan.target, plan.payload, plan.replace))
    (hnonempty : canonical ≠ []) (hsize : canonical.length ≤ limits.maximumSegmentBytes)
    (hceiling : archive.allocatedBytes + (segments.map Segment.allocatedBytes).sum +
      host.allocation.allocated plan.payload.length ≤ limits.maximumAdministratorBytes) :
    readSegments host limits (a.write plan) =
      .ok (archive, appendedSegments host segments plan.target plan.payload plan.replace) := by
  obtain ⟨scan, hr, rfl⟩ := readSegments_eq_ok.1 hread
  have hlocal := hr.localScanned
  have hpayload := host.allocation.le_allocated plan.payload.length
  rcases appendTarget_eq_ok.1 htarget with
    ⟨last, hlast, hreplace, hnumber, hdata, hfits⟩ | ⟨hreplace, hnumber, hdata, hroom, -⟩
  · -- the last segment is rewritten with the entry behind its lines
    have hne : scan.segments ≠ [] := by
      rintro h
      rw [h] at hlast
      cases hlast
    obtain ⟨init, before, number, data, hentries, hbefore, ha, hbeyond, hsegments⟩ :=
      hr.last_local hne
    have hlocalBefore := localScanned_of_fold hbefore
    have hlasteq : last = localSegment host number data := by
      rw [hsegments, List.getLast?_append] at hlast
      exact (Option.some.inj hlast).symm
    have htargeteq : plan.target = number := by rw [hnumber, hlasteq]; rfl
    have hpos : 0 < plan.payload.length := by
      rw [hdata, List.length_append]
      have := List.length_pos_iff.2 hnonempty
      omega
    have hlength : scan.segments.length = before.segments.length + 1 := by
      rw [hsegments, List.length_append, List.length_singleton]
    have hsum : scan.allocatedBytes =
        before.allocatedBytes + host.allocation.allocated data.length := by
      rw [hlocal.allocation, hsegments, hlocalBefore.allocation, List.map_append, List.sum_append]
      simp [localSegment, Nat.add_assoc]
    have hlogical := hlocalBefore.logical
    have htotal := hlocal.allocation
    -- the scan up to the last file is unchanged; only the last file is judged again
    have ha' : LocalAccepted host limits archive before number plan.payload := by
      refine ⟨ha.position, ha.successor, ?_, by omega, by omega, by omega,
        fun h => absurd h hbeyond⟩
      rw [hdata, List.length_append]
      exact hfits
    have hnew : (before.take host archive number plan.payload).segments =
        before.segments ++ [localSegment host number plan.payload] := if_neg hbeyond
    have happended : appendedSegments host scan.segments plan.target plan.payload plan.replace =
        before.segments ++ [localSegment host number plan.payload] := by
      rw [appendedSegments, hreplace, if_pos rfl, htargeteq, hsegments, List.dropLast_concat]
    have hnewlength : (before.take host archive number plan.payload).segments.length =
        scan.segments.length := by
      rw [hnew, List.length_append, List.length_singleton, hlength]
    refine readSegments_eq_ok.2 ⟨before.take host archive number plan.payload,
      ⟨hr.prefix_read, ?_, ?_, ?_, ?_⟩, happended.trans hnew.symm⟩
    · show (a.segments.insert plan.target plan.payload).size ≤ limits.maximumSegments
      rw [Directory.size, htargeteq, Directory.entries_insert_last hentries]
      have hb := hr.bounded
      rw [Directory.size, hentries] at hb
      simpa using hb
    · show (a.segments.insert plan.target plan.payload).entries.foldlM _ _ = _
      rw [htargeteq, Directory.entries_insert_last hentries]
      exact foldlM_append_eq_ok.2 ⟨before, hbefore,
        foldlM_singleton.2 (scanLocalSegment_eq_ok.2 ⟨ha', rfl⟩)⟩
    · rw [hnewlength]
      exact hr.tail
    · refine requirePendingLocalSegment_extend hnewlength.ge ?_ hr.pending
      intro i hi
      rw [hnew, hsegments, List.getElem?_append_left (by omega),
        List.getElem?_append_left (by omega)]
  · -- a new segment is created behind the last one
    have hpos : 0 < plan.payload.length := by
      rw [hdata]
      exact List.length_pos_iff.2 hnonempty
    have hlogical := hlocal.logical
    have htotal := hlocal.allocation
    have hkeys : ∀ j ∈ a.segments.keys, j < scan.segments.length := by
      intro j hj
      obtain ⟨file, hfile, rfl⟩ := List.mem_map.1 hj
      exact hlocal.files_lt file hfile
    have hentries : (a.segments.insert plan.target plan.payload).entries =
        a.segments.entries ++ [(scan.segments.length, plan.payload)] := by
      rw [hnumber]
      exact Directory.entries_insert_beyond hkeys plan.payload
    have hcovers := hlocal.covers
    -- the new file follows the last one read, as `_read_segments` demands
    have hsuccessor : ∀ p, scan.previousNumber = some p → scan.segments.length = p + 1 := by
      intro p hp
      have hne : scan.segments ≠ [] := by
        intro h
        have hfiles := hlocal.previous
        rw [hp] at hfiles
        obtain ⟨file, hfile, -⟩ := Option.map_eq_some_iff.1 hfiles.symm
        have := hlocal.files_lt file (List.mem_of_getLast? hfile)
        rw [h] at this
        exact absurd this (Nat.not_lt_zero _)
      have hbeyond := hr.beyond hne
      have htail := hlocal.tail hbeyond
      rw [hp] at htail
      have := Option.some.inj htail
      omega
    have ha : LocalAccepted host limits archive scan scan.segments.length plan.payload := by
      refine ⟨le_rfl, hsuccessor, by rw [hdata]; exact hsize, by omega, by omega, by omega,
        fun h => by omega⟩
    have hnew : (scan.take host archive scan.segments.length plan.payload).segments =
        appendedSegments host scan.segments plan.target plan.payload plan.replace := by
      rw [LocalScan.take, if_neg (by omega), appendedSegments, hreplace, hnumber]
      simp
    refine readSegments_eq_ok.2 ⟨scan.take host archive scan.segments.length plan.payload,
      ⟨hr.prefix_read, ?_, ?_, ?_, ?_⟩, hnew.symm⟩
    · show (a.segments.insert plan.target plan.payload).size ≤ limits.maximumSegments
      rw [Directory.size, hentries, List.length_append, List.length_singleton]
      -- the directory holds at most one file for each segment of the scan
      have hcount : a.segments.entries.length ≤ scan.segments.length := by
        cases hprevious : scan.previousNumber with
        | none =>
            have hnone := hlocal.previous
            rw [hprevious, eq_comm, Option.map_eq_none_iff, List.getLast?_eq_none_iff] at hnone
            rw [hnone]
            exact Nat.zero_le _
        | some p =>
            have := hlocal.count p hprevious
            have := hsuccessor p hprevious
            omega
      omega
    · show (a.segments.insert plan.target plan.payload).entries.foldlM _ _ = _
      rw [hentries]
      exact foldlM_append_eq_ok.2 ⟨scan, hr.scanned,
        foldlM_singleton.2 (scanLocalSegment_eq_ok.2 ⟨ha, rfl⟩)⟩
    · intro _
      rw [hnew, appendedSegments, hreplace]
      simp
      omega
    · refine requirePendingLocalSegment_extend ?_ ?_ hr.pending
      · rw [hnew, appendedSegments, hreplace]
        simp
      · intro i hi
        rw [hnew, appendedSegments, hreplace]
        simp only [Bool.false_eq_true, if_false]
        rw [List.getElem?_append_left (by omega)]

end StaticHostAgent.Audit
