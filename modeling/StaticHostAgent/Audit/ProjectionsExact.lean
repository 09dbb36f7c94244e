import StaticHostAgent.Audit.Projections

/-!
# Projections are filters

What the walks and the validation pass answer, as filters over the flat list of the entries: the
entries of a correlation, the transitions of a tenant before and behind an entry, the transitions
between two positions. The walks do not see where the list is cut into segments.
-/

set_option autoImplicit false

namespace StaticHostAgent.Audit

open Library Contracts Host

variable {host : AuditHost} {limits : AuditLimits}

/-! ## The filters -/

/-- The entries that carry a correlation. -/
def carrying (entries : List AuditEntry) (c : Uuid7) : List AuditEntry :=
  entries.filter fun x => decide (x.correlationId = c)

/-- A successful transition of the tenant of an entry. -/
def sharesTenant (entry x : AuditEntry) : Bool :=
  entry.tenantId.isSome && isTenantStateTransition x entry.tenantId

/-- The successful transitions of the same tenant before an entry. -/
def transitionsBefore (entries : List AuditEntry) (entry : AuditEntry) : List AuditEntry :=
  entries.filter fun x => decide (x.sequence < entry.sequence) && sharesTenant entry x

/-- The successful transitions of the same tenant behind an entry. -/
def transitionsBehind (entries : List AuditEntry) (entry : AuditEntry) : List AuditEntry :=
  entries.filter fun x => decide (entry.sequence < x.sequence) && sharesTenant entry x

/-- The position of an entry lies in a range with or without an end. -/
def inRange (start : Nat) (stop : Option Nat) (x : AuditEntry) : Bool :=
  decide (start ≤ x.sequence) && stop.all fun stop => decide (x.sequence < stop)

/-- The successful transitions of all tenants from one position up to another, or to the end. -/
def transitionsBetween (entries : List AuditEntry) (start : Nat) (stop : Option Nat) :
    List AuditTransition :=
  (entries.filter (inRange start stop)).filterMap projectTransition

/-- The answer to a correlation. -/
def snapshotOf (state : AuditState) (entries : List AuditEntry) (c : Uuid7) :
    AuditCorrelationSnapshot :=
  let found := (carrying entries c).head?
  ⟨state, found, found.bind fun entry => (transitionsBefore entries entry).getLast?,
    found.any fun entry => !(transitionsBehind entries entry).isEmpty⟩

/-- The entries are numbered in order. -/
def Increasing (entries : List AuditEntry) : Prop :=
  entries.Pairwise fun x y => x.sequence < y.sequence

theorem Linked.increasing {e : Encoding} {entries : List AuditEntry} {n : Nat}
    {terminal : Option Digest} (linked : Linked e n terminal entries) : Increasing entries := by
  have hrange := List.pairwise_lt_range' (s := n) (n := entries.length)
  rw [← linked.sequence] at hrange
  exact List.pairwise_map.1 hrange

/-! ## Walks over canonical lines -/

theorem walkLines_eq {ρ σ : Type} {body : σ → AuditEntry → Except AgentError (Control ρ σ)}
    {segments : List Segment} {entries : List AuditEntry}
    (canonical : CanonicalLines host.encoding (segments.flatMap fun s => splitLines s.data) entries)
    (state : σ) : walkLines host body segments state = loopUntil body entries state := by
  let onLine : σ → Bytes → Except AgentError (Control ρ σ) := fun state line => do
    let document ← liftContract (decodeAuditEntry host.encoding line)
    body state document
  have hflat : walkLines host body segments state =
      loopUntil onLine (segments.flatMap fun s => splitLines s.data) state := by
    have hnested := loopUntil_map (fun segment : Segment => splitLines segment.data)
      (fun state lines => loopUntil onLine lines state) segments state
    rw [loopUntil_flatten] at hnested
    exact hnested.symm
  rw [hflat, canonical.lines]
  apply loopUntil_related (R := fun line x => line = host.encoding.canonical (.auditEntry x))
  · rintro state line x rfl
    have hdecoded := decodeAuditEntry_eq_ok.2 (host.encoding.decode_canonical (.auditEntry x))
    show (liftContract (decodeAuditEntry host.encoding _) >>= body state) = _
    rw [hdecoded]
    rfl
  · exact List.forall₂_map_left_iff.2 (List.forall₂_same.2 fun _ _ => rfl)

/-! ## The previous transition -/

/-- The value a walk ends with, returned or carried. -/
def Control.value {σ : Type} : Control σ σ → σ
  | .finished result => result
  | .running state => state

theorem previousBody_loop (t : Uuid7) (m : Nat) (entries : List AuditEntry) :
    ∀ previous, ∃ control, loopUntil (previousBody t m) entries previous = .ok control ∧
      Control.value control =
        (((entries.takeWhile fun x => decide (x.sequence ≠ m)).filter fun x =>
          isTenantStateTransition x (some t)).getLast?).or previous := by
  induction entries with
  | nil =>
      intro previous
      exact ⟨.running previous, rfl, rfl⟩
  | cons x entries ih =>
      intro previous
      by_cases hm : x.sequence = m
      · -- the walk has reached the entry itself
        have hbody : previousBody t m previous x = .ok (.finished previous) := if_pos hm
        refine ⟨.finished previous, loopUntil_finished hbody, ?_⟩
        rw [List.takeWhile_cons_of_neg (by simp [hm])]
        rfl
      · have htake : (x :: entries).takeWhile (fun x => decide (x.sequence ≠ m)) =
            x :: entries.takeWhile fun x => decide (x.sequence ≠ m) :=
          List.takeWhile_cons_of_pos (by simp [hm])
        rw [htake]
        by_cases htransition : isTenantStateTransition x (some t) = true
        · have hbody : previousBody t m previous x = .ok (.running (some x)) :=
            (if_neg hm).trans (if_pos htransition)
          obtain ⟨control, hloop, hvalue⟩ := ih (some x)
          refine ⟨control, (loopUntil_running hbody).trans hloop, ?_⟩
          rw [hvalue, List.filter_cons, if_pos htransition, List.getLast?_cons]
          cases hlast : ((entries.takeWhile fun x => decide (x.sequence ≠ m)).filter fun x =>
            isTenantStateTransition x (some t)).getLast? with
          | none => rfl
          | some y => rfl
        · have hbody : previousBody t m previous x = .ok (.running previous) :=
            (if_neg hm).trans (if_neg htransition)
          obtain ⟨control, hloop, hvalue⟩ := ih previous
          refine ⟨control, (loopUntil_running hbody).trans hloop, ?_⟩
          rw [hvalue, List.filter_cons, if_neg htransition]

/-- Up to the entry itself is the same as before it. -/
theorem takeWhile_eq_filter {entries : List AuditEntry} {entry : AuditEntry}
    (increasing : Increasing entries) (hmem : entry ∈ entries) :
    (entries.takeWhile fun x => decide (x.sequence ≠ entry.sequence)) =
      entries.filter fun x => decide (x.sequence < entry.sequence) := by
  induction entries with
  | nil => cases hmem
  | cons x entries ih =>
      obtain ⟨hfirst, hrest⟩ := List.pairwise_cons.1 increasing
      by_cases hx : x.sequence = entry.sequence
      · -- everything behind has a higher number
        rw [List.takeWhile_cons_of_neg (by simp [hx]), List.filter_cons_of_neg (by simp [hx]),
          List.filter_eq_nil_iff.2]
        intro y hy
        have hlt := hfirst y hy
        simp only [decide_eq_true_eq]
        omega
      · have hin : entry ∈ entries := by
          rcases List.mem_cons.1 hmem with rfl | hin
          · exact absurd rfl hx
          · exact hin
        have hlt := hfirst entry hin
        rw [List.takeWhile_cons_of_pos (by simp [hx]), List.filter_cons_of_pos (by simp [hlt]),
          ih hrest hin]

section Chain

variable {segments : List Segment} {entries : List AuditEntry}

/-- A chain whose lines are the canonical lines of numbered entries. -/
structure FlatChain (host : AuditHost) (segments : List Segment) (entries : List AuditEntry) :
    Prop where
  canonical : CanonicalLines host.encoding (segments.flatMap fun s => splitLines s.data) entries
  linked : Linked host.encoding 0 none entries

theorem FlatChain.increasing (flat : FlatChain host segments entries) : Increasing entries :=
  flat.linked.increasing

theorem FlatChain.entries_eq (flat : FlatChain host segments entries) :
    chainEntries host segments = entries := by
  rw [chainEntries_eq]
  exact flat.canonical.entries

/-- The transition before an entry. -/
theorem walkPreviousTransition_eq (flat : FlatChain host segments entries) {entry : AuditEntry}
    (hmem : entry ∈ entries) :
    walkPreviousTransition host segments (some entry) =
      .ok (transitionsBefore entries entry).getLast? := by
  unfold walkPreviousTransition transitionsBefore sharesTenant
  dsimp only
  cases htenant : entry.tenantId with
  | none =>
      simp only [Option.isSome_none, Bool.false_and, Bool.and_false, List.filter_false]
      rfl
  | some t =>
      dsimp only
      obtain ⟨control, hloop, hvalue⟩ := previousBody_loop t entry.sequence entries none
      rw [walkLines_eq flat.canonical, hloop]
      rw [takeWhile_eq_filter flat.increasing hmem, List.filter_filter, Option.or_none] at hvalue
      have hfilter : (entries.filter fun x => decide (x.sequence < entry.sequence) &&
            ((some t).isSome && isTenantStateTransition x (some t))) =
          entries.filter fun x => isTenantStateTransition x (some t) &&
            decide (x.sequence < entry.sequence) := by
        apply List.filter_congr
        intro x _
        rw [Option.isSome_some, Bool.true_and, Bool.and_comm]
      rw [hfilter, ← hvalue]
      cases control with
      | finished previous => rfl
      | running previous => rfl

/-- The walk of the source and the filter of the reads agree. -/
theorem walkPreviousTransition_eq_previous (flat : FlatChain host segments entries)
    {matching : Option AuditEntry} (hmem : ∀ entry, matching = some entry → entry ∈ entries) :
    walkPreviousTransition host segments matching =
      .ok (previousTenantStateTransition host segments matching) := by
  cases matching with
  | none => rfl
  | some entry =>
      rw [walkPreviousTransition_eq flat (hmem entry rfl)]
      unfold previousTenantStateTransition transitionsBefore sharesTenant
      dsimp only
      cases htenant : entry.tenantId with
      | none =>
          simp only [Option.isSome_none, Bool.false_and, Bool.and_false, List.filter_false,
            Option.isNone_none, if_true]
          rfl
      | some t =>
          rw [flat.entries_eq, takeWhile_eq_filter flat.increasing (hmem entry rfl)]
          simp only [Option.isNone_some, Bool.false_eq_true, if_false, Option.isSome_some,
            Bool.true_and]
          rw [← List.head?_filter, List.filter_reverse, List.head?_reverse, List.filter_filter]
          congr 2
          apply List.filter_congr
          intro x _
          exact Bool.and_comm _ _

/-! ## The position of a dispatch boundary -/

theorem find?_sequence {e : Encoding} {entries : List AuditEntry} :
    ∀ {n : Nat} {terminal : Option Digest}, Linked e n terminal entries → ∀ i,
      entries.find? (fun x => decide (x.sequence = n + i)) = entries[i]? := by
  induction entries with
  | nil =>
      intro n terminal _ i
      rfl
  | cons x entries ih =>
      intro n terminal linked i
      obtain ⟨hx, _, hrest⟩ := linked
      cases i with
      | zero =>
          rw [List.find?_cons_of_pos (by simp [hx])]
          rfl
      | succ i =>
          have hnext := ih hrest i
          rw [List.find?_cons_of_neg (by simp [hx])]
          rw [show n + (i + 1) = n + 1 + i by omega, hnext]
          rfl

theorem terminalBehind_take {e : Encoding} {entries : List AuditEntry} {i : Nat} {x : AuditEntry}
    (h : entries[i]? = some x) (terminal : Option Digest) :
    terminalBehind e terminal (entries.take (i + 1)) = some (auditEntryDigest e x) := by
  have htake : entries.take (i + 1) = entries.take i ++ [x] := by
    rw [List.take_add_one, h]
    rfl
  rw [htake, terminalBehind_append]
  rfl

theorem dispatchBody_loop (boundary : AuditBoundary) (entries : List AuditEntry) :
    loopUntil (dispatchBody host boundary) entries () =
      match entries.find? fun x => decide (x.sequence = boundary.entryCount - 1) with
      | none => .ok (.running ())
      | some x =>
          if boundary.terminalDigest = some (auditEntryDigest host.encoding x) then
            .ok (.finished boundary.entryCount)
          else .error (.audit "dispatch audit boundary digest disagrees with history") := by
  induction entries with
  | nil => rfl
  | cons x entries ih =>
      by_cases hx : x.sequence = boundary.entryCount - 1
      · rw [List.find?_cons_of_pos (by simp [hx])]
        by_cases hdigest : boundary.terminalDigest = some (auditEntryDigest host.encoding x)
        · have hbody : dispatchBody host boundary () x = .ok (.finished boundary.entryCount) := by
            unfold dispatchBody
            rw [if_pos hx, decide_eq_true hdigest]
            rfl
          rw [loopUntil_finished hbody]
          exact (if_pos hdigest).symm
        · have hbody : dispatchBody host boundary () x =
              .error (.audit "dispatch audit boundary digest disagrees with history") := by
            unfold dispatchBody
            rw [if_pos hx, decide_eq_false hdigest]
            rfl
          rw [loopUntil_error hbody]
          exact (if_neg hdigest).symm
      · rw [List.find?_cons_of_neg (by simp [hx]), ← ih]
        exact loopUntil_running (if_neg hx)

/-- A boundary is accepted exactly if its digest is that of the entries before its position. -/
theorem dispatchTransitionStart_iff (flat : FlatChain host segments entries)
    {boundary : AuditBoundary} {stop : Nat} (hstop : stop ≤ entries.length) (start : Nat) :
    dispatchTransitionStart host segments boundary stop = .ok start ↔
      start = boundary.entryCount ∧ boundary.entryCount ≤ stop ∧
        boundary.terminalDigest =
          terminalBehind host.encoding none (entries.take boundary.entryCount) := by
  unfold dispatchTransitionStart
  by_cases hle : boundary.entryCount ≤ stop
  · rw [decide_eq_true hle, require_true, ok_bind]
    by_cases hzero : boundary.entryCount = 0
    · rw [if_pos hzero, hzero, List.take_zero]
      cases hdigest : boundary.terminalDigest with
      | none =>
          rw [Option.isNone_none, require_true, ok_bind, pure_eq_ok]
          exact ⟨fun h => ⟨h.symm, Nat.zero_le _, rfl⟩, fun h => h.1.symm⟩
      | some digest =>
          rw [Option.isNone_some, require_false, error_bind]
          exact ⟨fun h => (nomatch h), fun h => (nomatch h.2.2)⟩
    · -- the entry at the boundary is there
      rw [if_neg hzero, walkLines_eq flat.canonical, dispatchBody_loop]
      have hfind := find?_sequence flat.linked (boundary.entryCount - 1)
      rw [Nat.zero_add] at hfind
      obtain ⟨x, hx⟩ : ∃ x, entries[boundary.entryCount - 1]? = some x :=
        ⟨_, List.getElem?_eq_getElem (by omega)⟩
      have hterminal := terminalBehind_take (e := host.encoding) hx none
      rw [Nat.sub_add_cancel (Nat.pos_of_ne_zero hzero)] at hterminal
      rw [hfind, hx, hterminal]
      dsimp only
      by_cases hdigest : boundary.terminalDigest = some (auditEntryDigest host.encoding x)
      · rw [if_pos hdigest, ok_bind]
        show pure boundary.entryCount = Except.ok start ↔ _
        rw [pure_eq_ok]
        exact ⟨fun h => ⟨h.symm, hle, hdigest⟩, fun h => h.1.symm⟩
      · rw [if_neg hdigest, error_bind]
        exact ⟨fun h => (nomatch h), fun h => absurd h.2.2 hdigest⟩
  · rw [decide_eq_false hle, require_false, error_bind]
    exact ⟨fun h => (nomatch h), fun h => absurd h.2.1 hle⟩

/-! ## The transitions behind -/

/-- What a walk has collected when it ends. -/
def collected : Control (List AuditTransition) TransitionScan → List AuditTransition
  | .finished transitions => transitions
  | .running scan => scan.transitions

/-- The transitions can be collected behind those of a scan: no correlation repeats, and the bound
is kept. -/
structure Collectable (maximum : Nat) (scan : TransitionScan) (picked : List AuditTransition) :
    Prop where
  distinct : (picked.map AuditTransition.correlationId).Nodup
  fresh : ∀ transition ∈ picked, transition.correlationId ∉ scan.correlations
  bounded : scan.transitions.length + picked.length ≤ maximum

theorem projectTransition_correlation {x : AuditEntry} {transition : AuditTransition}
    (h : projectTransition x = some transition) : transition.correlationId = x.correlationId := by
  unfold projectTransition at h
  cases htenant : x.tenantId with
  | none =>
      rw [htenant] at h
      cases h
  | some t =>
      rw [htenant] at h
      dsimp only at h
      by_cases hsucceeded : x.resultStatus = .succeeded ∧ x.operation ∈ tenantStateTransitions
      · rw [if_pos hsucceeded] at h
        rw [← Option.some.inj h]
      · rw [if_neg hsucceeded] at h
        cases h

theorem collectable_cons {maximum : Nat} {scan : TransitionScan} {transition : AuditTransition}
    {picked : List AuditTransition} :
    Collectable maximum scan (transition :: picked) ↔
      transition.correlationId ∉ scan.correlations ∧ scan.transitions.length < maximum ∧
        Collectable maximum ⟨scan.transitions ++ [transition],
          transition.correlationId :: scan.correlations⟩ picked := by
  constructor
  · intro h
    have hdistinct := h.distinct
    rw [List.map_cons, List.nodup_cons] at hdistinct
    have hbounded := h.bounded
    rw [List.length_cons] at hbounded
    refine ⟨h.fresh transition List.mem_cons_self, by omega, ⟨hdistinct.2, ?_, ?_⟩⟩
    · intro other hother hmem
      rcases List.mem_cons.1 hmem with hsame | hmem
      · exact hdistinct.1 (hsame ▸ List.mem_map_of_mem hother)
      · exact h.fresh other (List.mem_cons_of_mem _ hother) hmem
    · rw [List.length_append, List.length_singleton]
      omega
  · rintro ⟨hfresh, _, h⟩
    have hbounded := h.bounded
    rw [List.length_append, List.length_singleton] at hbounded
    refine ⟨?_, List.forall_mem_cons.2 ⟨hfresh, ?_⟩, ?_⟩
    · rw [List.map_cons, List.nodup_cons]
      refine ⟨?_, h.distinct⟩
      intro hmem
      obtain ⟨other, hother, hsame⟩ := List.mem_map.1 hmem
      exact h.fresh other hother (hsame ▸ List.mem_cons_self)
    · intro other hother hmem
      exact h.fresh other hother (List.mem_cons_of_mem _ hmem)
    · rw [List.length_cons]
      omega

theorem transitionsBetween_skip {start : Nat} {stop : Option Nat} {x : AuditEntry}
    (h : inRange start stop x = false) (entries : List AuditEntry) :
    transitionsBetween (x :: entries) start stop = transitionsBetween entries start stop := by
  unfold transitionsBetween
  rw [List.filter_cons, h]
  rfl

theorem transitionsBetween_take {start : Nat} {stop : Option Nat} {x : AuditEntry}
    (h : inRange start stop x = true) (entries : List AuditEntry) :
    transitionsBetween (x :: entries) start stop =
      (projectTransition x).toList ++ transitionsBetween entries start stop := by
  unfold transitionsBetween
  rw [List.filter_cons, if_pos h, List.filterMap_cons]
  cases projectTransition x <;> rfl

/-- Behind the end of the range nothing is left to collect. -/
theorem transitionsBetween_behind {start last : Nat} {x : AuditEntry} {entries : List AuditEntry}
    (increasing : Increasing (x :: entries)) (hlast : last ≤ x.sequence) :
    transitionsBetween (x :: entries) start (some last) = [] := by
  unfold transitionsBetween
  rw [List.filter_eq_nil_iff.2]
  · rfl
  intro y hy
  have hle : last ≤ y.sequence := by
    rcases List.mem_cons.1 hy with rfl | hy
    · exact hlast
    · have hlt := (List.pairwise_cons.1 increasing).1 y hy
      omega
  unfold inRange
  rw [Option.all_some, decide_eq_false (p := y.sequence < last) (by omega), Bool.and_false]
  exact Bool.false_ne_true

/-- One entry is collected, or the whole cannot be. -/
theorem collectTransition_cases {maximum : Nat} (scan : TransitionScan) (x : AuditEntry)
    (hbound : scan.transitions.length ≤ maximum) (picked : List AuditTransition) :
    (∃ next, collectTransition maximum scan x = .ok next ∧ next.transitions.length ≤ maximum ∧
      next.transitions = scan.transitions ++ (projectTransition x).toList ∧
      (Collectable maximum scan ((projectTransition x).toList ++ picked) ↔
        Collectable maximum next picked)) ∨
    ∃ e, collectTransition maximum scan x = .error e ∧
      ¬ Collectable maximum scan ((projectTransition x).toList ++ picked) := by
  unfold collectTransition
  cases hproject : projectTransition x with
  | none => exact .inl ⟨scan, rfl, hbound, (List.append_nil _).symm, Iff.rfl⟩
  | some transition =>
      have hcorrelation := projectTransition_correlation hproject
      rw [Option.toList_some, List.singleton_append, collectable_cons, hcorrelation]
      dsimp only
      by_cases hfresh : x.correlationId ∉ scan.correlations
      · rw [decide_eq_true hfresh, require_true, ok_bind]
        by_cases hroom : scan.transitions.length < maximum
        · rw [decide_eq_true hroom, require_true, ok_bind]
          refine .inl ⟨_, rfl, ?_, rfl, ⟨fun h => h.2.2, fun h => ⟨hfresh, hroom, h⟩⟩⟩
          rw [List.length_append, List.length_singleton]
          exact hroom
        · rw [decide_eq_false hroom, require_false, error_bind]
          exact .inr ⟨_, rfl, fun h => hroom h.2.1⟩
      · rw [decide_eq_false hfresh, require_false, error_bind]
        exact .inr ⟨_, rfl, fun h => hfresh h.1⟩

/-- The walk collects the transitions of the range, or fails because they cannot be collected. -/
theorem laterBody_loop (start : Nat) (stop : Option Nat) (maximum : Nat)
    {entries : List AuditEntry} :
    Increasing entries → ∀ scan : TransitionScan, scan.transitions.length ≤ maximum →
      (Collectable maximum scan (transitionsBetween entries start stop) ∧
        ∃ control, loopUntil (laterBody start stop maximum) entries scan = .ok control ∧
          collected control = scan.transitions ++ transitionsBetween entries start stop) ∨
      (¬ Collectable maximum scan (transitionsBetween entries start stop) ∧
        ∃ e, loopUntil (laterBody start stop maximum) entries scan = .error e) := by
  induction entries with
  | nil =>
      intro _ scan hbound
      exact .inl ⟨⟨List.nodup_nil, List.forall_mem_nil _, hbound⟩, .running scan, rfl,
        (List.append_nil _).symm⟩
  | cons x entries ih =>
      intro increasing scan hbound
      have hrest := (List.pairwise_cons.1 increasing).2
      by_cases hstart : x.sequence < start
      · -- before the range
        have hbody : laterBody start stop maximum scan x = .ok (.running scan) := if_pos hstart
        have hout : inRange start stop x = false := by
          unfold inRange
          rw [decide_eq_false (by omega), Bool.false_and]
        rw [transitionsBetween_skip hout, loopUntil_running hbody]
        exact ih hrest scan hbound
      by_cases hstop : (stop.any fun stop => decide (stop ≤ x.sequence)) = true
      · -- behind the range, and so is everything that follows
        have hbody : laterBody start stop maximum scan x = .ok (.finished scan.transitions) :=
          (if_neg hstart).trans (if_pos hstop)
        cases stop with
        | none => cases hstop
        | some last =>
            rw [transitionsBetween_behind increasing (of_decide_eq_true hstop)]
            exact .inl ⟨⟨List.nodup_nil, List.forall_mem_nil _, hbound⟩,
              .finished scan.transitions, loopUntil_finished hbody, (List.append_nil _).symm⟩
      have hin : inRange start stop x = true := by
        unfold inRange
        rw [decide_eq_true (by omega), Bool.true_and]
        cases stop with
        | none => rfl
        | some last =>
            have hlast : ¬ last ≤ x.sequence := fun h => hstop (decide_eq_true h)
            exact decide_eq_true (by omega)
      have hbody : laterBody start stop maximum scan x =
          (collectTransition maximum scan x >>= fun scan => pure (.running scan)) :=
        (if_neg hstart).trans (if_neg hstop)
      rw [transitionsBetween_take hin]
      rcases collectTransition_cases scan x hbound (transitionsBetween entries start stop) with
        ⟨next, hcollect, hroom, hnext, hcollectable⟩ | ⟨e, hcollect, hcannot⟩
      · rw [hcollect] at hbody
        rw [loopUntil_running hbody, hcollectable, ← List.append_assoc, ← hnext]
        exact ih hrest next hroom
      · rw [hcollect] at hbody
        exact .inr ⟨hcannot, e, loopUntil_error hbody⟩

/-- The start of a projection, from an entry or from a boundary that is accepted. -/
def StartsAt (host : AuditHost) (entries : List AuditEntry) (entry : AuditEntry) (start : Nat) :
    Option AuditBoundary → Prop
  | none => start = entry.sequence + 1
  | some boundary => start = boundary.entryCount ∧ boundary.entryCount ≤ entry.sequence ∧
      boundary.terminalDigest =
        terminalBehind host.encoding none (entries.take boundary.entryCount)

theorem transitionStart_iff (flat : FlatChain host segments entries) {entry : AuditEntry}
    (hentry : entry.sequence ≤ entries.length) (boundary : Option AuditBoundary) (start : Nat) :
    transitionStart host segments entry boundary = .ok start ↔
      StartsAt host entries entry start boundary := by
  cases boundary with
  | none => exact ⟨fun h => (Except.ok.inj h).symm, fun h => congrArg Except.ok h.symm⟩
  | some boundary => exact dispatchTransitionStart_iff flat hentry start

/-- The projection behind an entry, or from a boundary up to it. -/
theorem laterAuditTransitions_iff (flat : FlatChain host segments entries) {entry : AuditEntry}
    (hentry : entry.sequence ≤ entries.length) (maximum : Nat) (boundary : Option AuditBoundary)
    (transitions : List AuditTransition) :
    laterAuditTransitions host segments (some entry) maximum boundary = .ok transitions ↔
      ∃ start, StartsAt host entries entry start boundary ∧
        transitions = transitionsBetween entries start (boundary.map fun _ => entry.sequence) ∧
        (transitions.map AuditTransition.correlationId).Nodup ∧ transitions.length ≤ maximum := by
  unfold laterAuditTransitions
  dsimp only
  rw [bind_eq_ok]
  constructor
  · rintro ⟨start, hstart, h⟩
    refine ⟨start, (transitionStart_iff flat hentry boundary start).1 hstart, ?_⟩
    rw [walkLines_eq flat.canonical] at h
    rcases laterBody_loop start (boundary.map fun _ => entry.sequence) maximum flat.increasing
        ⟨[], []⟩ (Nat.zero_le _) with
      ⟨hcollectable, control, hloop, hcollected⟩ | ⟨_, e, hloop⟩
    · rw [hloop, ok_bind] at h
      have hvalue : collected control = transitions := by
        cases control with
        | finished result => exact pure_eq_ok.1 h
        | running scan => exact pure_eq_ok.1 h
      rw [← hvalue, hcollected, List.nil_append]
      have hbounded := hcollectable.bounded
      rw [List.length_nil, Nat.zero_add] at hbounded
      exact ⟨rfl, hcollectable.distinct, hbounded⟩
    · rw [hloop] at h
      cases h
  · rintro ⟨start, hstart, rfl, hdistinct, hbounded⟩
    refine ⟨start, (transitionStart_iff flat hentry boundary start).2 hstart, ?_⟩
    rw [walkLines_eq flat.canonical]
    rcases laterBody_loop start (boundary.map fun _ => entry.sequence) maximum flat.increasing
        ⟨[], []⟩ (Nat.zero_le _) with
      ⟨_, control, hloop, hcollected⟩ | ⟨hcannot, _⟩
    · rw [List.nil_append] at hcollected
      rw [hloop, ok_bind, ← hcollected]
      cases control with
      | finished result => rfl
      | running scan => rfl
    · refine absurd ⟨hdistinct, fun _ _ => List.not_mem_nil, ?_⟩ hcannot
      rw [List.length_nil, Nat.zero_add]
      exact hbounded

end Chain

end StaticHostAgent.Audit
