import StaticHostAgent.Exports.DeliveryHistory

/-!
# The laws of the delivery

A bundle is kept until it is retired, and retired once, for a receipt that names it or for its age;
then a reconciliation in which no call fails takes it away.
-/

set_option autoImplicit false

namespace StaticHostAgent.Exports

open Library Contracts Contracts.OperatorProtocol

/-! ## Reconciliations in which no call fails -/

section Reconciliation

variable {h : ExportHost} {w : ExportWorld} {jobId : Uuid7}

theorem attempt_ends (hcalm : w.failing = []) (error : ExportError) :
    Durable.Ends (attempt error) w () w := by
  have hsame : { w with failing := w.failing.tail } = w := by
    cases w
    cases hcalm
    rfl
  refine Durable.Ends.query_bind rfl ?_
  refine (Durable.Ends.effect _ w).bind ?_
  rw [hsame]
  refine Durable.Ends.query ?_
  rw [hcalm]
  rfl

theorem completedJobId_ends (hcalm : w.failing = []) (hkeys : w.spool.completed.keys = [jobId]) :
    Durable.Ends completedJobId w (some jobId) w := by
  refine (attempt_ends hcalm .os).bind (Durable.Ends.query ?_)
  have hslot : w.spool.completed.size ≤ 1 := by
    rw [← Directory.size_keys, hkeys]
    exact Nat.le_refl 1
  rw [decide_eq_true hslot, hkeys]
  rfl

/-- The spool without the bundle. -/
def ExportWorld.emptied (w : ExportWorld) (jobId : Uuid7) : ExportWorld :=
  w.setSpool fun spool => { spool with completed := spool.completed.erase jobId }

theorem removeCompleted_ends (hcalm : w.failing = [])
    (hkeys : w.spool.completed.keys = [jobId]) :
    Durable.Ends (removeCompleted jobId) w () (w.emptied jobId) := by
  refine (completedJobId_ends hcalm hkeys).bind (Durable.Ends.query_bind (a := ()) ?_ ?_)
  · rw [decide_eq_true (rfl : some jobId = some jobId), Bool.or_true]
    rfl
  refine Durable.Ends.bind (a := ()) (t := w.emptied jobId) ?_
    (attempt_ends (w := w.emptied jobId) hcalm .os)
  exact (attempt_ends hcalm .os).bind (Durable.Ends.effect _ w)

theorem emptied_bundle (w : ExportWorld) : ((w.emptied jobId).shelf jobId).bundle = none :=
  Directory.find?_erase_self _ _

/-- An export that is retired, or older than its retention, loses its bundle. -/
theorem available_ends {job : AuthorizationJob} {result : OperationResult} {now : Nat}
    (hcalm : w.failing = []) (hkeys : w.spool.completed.keys = [jobId])
    (hjob : findJob w jobId = .ok job) (hresult : findResult w jobId = .ok result)
    (hdeliverable : deliverable jobId job result = true)
    (hover : (w.shelf jobId).Retired ∨ ((job.exportDelivery = none ∨
      job.exportDelivery = some .unacknowledged) ∧ h.restoreRetired job result = .ok false ∧
        h.instant job.acceptedAt + exportRetention ≤ now)) :
    ∃ t, Durable.Ends (available h job now) w false t ∧ (t.shelf jobId).bundle = none := by
  obtain ⟨hstored, rfl⟩ := findJob_ok hjob
  have hdelivery : (w.shelf job.jobId).delivery = job.exportDelivery := by
    unfold ExportWorld.shelf
    rw [hstored]
    rfl
  rcases hover with hretired | ⟨hopen, hrestore, hage⟩
  · refine ⟨w.emptied job.jobId, (completedJobId_ends hcalm hkeys).bind ?_, emptied_bundle w⟩
    have hretired : job.exportDelivery ∈ [some ExportDelivery.acknowledged, some .expired] := by
      unfold Shelf.Retired at hretired
      rw [hdelivery] at hretired
      simpa using hretired
    rw [if_pos hretired]
    refine Durable.Ends.bind (a := ()) (t := w.emptied job.jobId) ?_ (Durable.Ends.pure false _)
    rw [decide_eq_true (rfl : some job.jobId = some job.jobId)]
    exact removeCompleted_ends hcalm hkeys
  · have hnot : job.exportDelivery ∉ [some ExportDelivery.acknowledged, some .expired] := by
      rcases hopen with hopen | hopen <;> simp [hopen]
    let marked : ExportWorld := (w.setJob { job with exportDelivery := some .expired }).mark
      job.jobId .expired
    refine ⟨marked.emptied job.jobId, (completedJobId_ends hcalm hkeys).bind ?_,
      emptied_bundle marked⟩
    rw [if_neg hnot]
    refine Durable.Ends.query_bind hresult (Durable.Ends.query_bind (a := false) ?_ ?_)
    · rw [hrestore]
      rfl
    rw [if_neg Bool.false_ne_true]
    refine Durable.Ends.query_bind (a := ()) ?_ ?_
    · rw [decide_eq_true (rfl : some job.jobId = some job.jobId)]
      rfl
    rw [if_pos hage]
    refine Durable.Ends.bind (a := ()) (t := marked.emptied job.jobId) ?_
      (Durable.Ends.pure false _)
    -- the mark and the removal of the bundle
    simp only [deliverable, Bool.and_eq_true, decide_eq_true_eq] at hdeliverable
    obtain ⟨⟨⟨⟨⟨⟨⟨⟨hop, hphase⟩, hvalidated⟩, -⟩, hstatus⟩, -⟩, -⟩, -⟩, hbundle⟩ := hdeliverable
    refine Durable.Ends.bind (a := ()) (t := marked) ?_
      ((attempt_ends (w := marked) hcalm .os).bind (removeCompleted_ends (w := marked) hcalm hkeys))
    refine Durable.Ends.query_bind hjob (Durable.Ends.query_bind (a := ()) ?_ ?_)
    · have hmember : job.exportDelivery ∈ [none, some ExportDelivery.unacknowledged] := by
        simpa using hopen
      rw [decide_eq_true hop, decide_eq_true hphase, decide_eq_true hvalidated,
        decide_eq_true hmember]
      rfl
    refine Durable.Ends.query_bind hresult (Durable.Ends.query_bind (a := ()) ?_ ?_)
    · rw [decide_eq_true hstatus, hbundle]
      rfl
    exact (attempt_ends hcalm .capacity).bind (Durable.Ends.effect _ w)

theorem reconcileLocked_ends {job : AuthorizationJob} {result : OperationResult} {now : Nat}
    (hcalm : w.failing = []) (hkeys : w.spool.completed.keys = [jobId])
    (hjob : findJob w jobId = .ok job) (hresult : findResult w jobId = .ok result)
    (hdeliverable : deliverable jobId job result = true)
    (hover : (w.shelf jobId).Retired ∨ ((job.exportDelivery = none ∨
      job.exportDelivery = some .unacknowledged) ∧ h.restoreRetired job result = .ok false ∧
        h.instant job.acceptedAt + exportRetention ≤ now)) :
    ∃ t, Durable.Ends (reconcileLocked h now) w () t ∧ (t.shelf jobId).bundle = none := by
  let idle : ExportWorld := w.setSpool fun spool => { spool with work := none }
  have hidle : Durable.Ends discardWorkspace w () idle :=
    (attempt_ends hcalm .os).bind
      ((Durable.Ends.effect _ w).bind (attempt_ends (w := idle) hcalm .os))
  obtain ⟨t, havailable, hbundle⟩ := available_ends (w := idle) (h := h) hcalm hkeys hjob hresult
    hdeliverable hover
  refine ⟨t, hidle.bind ((completedJobId_ends (w := idle) hcalm hkeys).bind ?_), hbundle⟩
  refine Durable.Ends.query_bind hjob ?_
  have hvalidated : decide (job.executionValidated = some true) = true := by
    simp only [deliverable, Bool.and_eq_true] at hdeliverable
    exact hdeliverable.1.1.1.1.1.1.2
  rw [hvalidated]
  refine Durable.Ends.query_bind (a := (job, result)) ?_ (havailable.bind (Durable.Ends.pure () _))
  show (findJob w jobId >>= _) = _
  rw [hjob, ok_bind, show findResult idle jobId = .ok result from hresult, ok_bind, hdeliverable]
  rfl

end Reconciliation

/-- What the deliveries of an export come to, however their sessions are interrupted. -/
structure DeliveryLaws (h : ExportHost) : Prop where
  /-- The authority of the job and its result stay as they are. -/
  authority : ∀ jobId H w₀ w, Deliveries h jobId H w₀ w →
    w.authority jobId = w₀.authority jobId ∧ w.results.find? jobId = w₀.results.find? jobId
  /-- A retirement is final. -/
  final : ∀ jobId H w₀ w, Deliveries h jobId H w₀ w → (w₀.shelf jobId).Retired →
    (w.shelf jobId).delivery = (w₀.shelf jobId).delivery
  /-- Until it is retired, the export keeps its bundle. -/
  kept : ∀ jobId H w₀ w, Deliveries h jobId H w₀ w → ¬ (w.shelf jobId).Retired →
    w.shelf jobId = w₀.shelf jobId
  /-- It is retired while its bundle is there, for what one of the sessions allows. -/
  reason : ∀ jobId H w₀ w, Deliveries h jobId H w₀ w → ¬ (w₀.shelf jobId).Retired →
    (w.shelf jobId).Retired → (w₀.shelf jobId).bundle.isSome = true ∧
      ∃ job, w₀.authority jobId = some job ∧ ∃ session ∈ H, ∃ reason,
        session.Allows h job (w₀.results.find? jobId) reason ∧
          (w.shelf jobId).delivery = some reason.delivery
  /-- A reconciliation in which no call fails takes away the bundle of an export that is retired or
  older than its retention. -/
  cleared : ∀ (w : ExportWorld) now jobId job result, w.failing = [] →
    w.spool.completed.keys = [jobId] → findJob w jobId = .ok job →
    findResult w jobId = .ok result → deliverable jobId job result = true →
    ((w.shelf jobId).Retired ∨ ((job.exportDelivery = none ∨
      job.exportDelivery = some .unacknowledged) ∧ h.restoreRetired job result = .ok false ∧
        h.instant job.acceptedAt + exportRetention ≤ now)) →
    (reconcileLocked h now w).result = .ok () ∧
      ((reconcileLocked h now w).state.shelf jobId).bundle = none

/-- Deliveries keep a bundle until a receipt or its age retires it, once. -/
theorem delivery_laws (h : ExportHost) : DeliveryLaws h where
  authority := by
    intro jobId H w₀ w hrun
    have hserves := deliveries_serve hrun
    exact ⟨hserves.authority, hserves.result⟩
  final := by
    intro jobId H w₀ w hrun hretired
    exact (deliveries_serve hrun).shelf.final hretired
  kept := by
    intro jobId H w₀ w hrun hopen
    exact (deliveries_serve hrun).shelf.kept hopen
  reason := by
    intro jobId H w₀ w hrun hopen hretired
    obtain ⟨hbundle, reason, ⟨job, hjob, session, hsession, hallows⟩, hdelivery⟩ :=
      (deliveries_serve hrun).shelf.reason hopen hretired
    exact ⟨hbundle, job, hjob, session, hsession, reason, hallows, hdelivery⟩
  cleared := by
    intro w now jobId job result hcalm hkeys hjob hresult hdeliverable hover
    obtain ⟨t, hends, hbundle⟩ := reconcileLocked_ends hcalm hkeys hjob hresult hdeliverable hover
    rw [hends.state]
    exact ⟨hends.result, hbundle⟩

end StaticHostAgent.Exports
