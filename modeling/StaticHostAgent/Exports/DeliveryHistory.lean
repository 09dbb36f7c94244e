import StaticHostAgent.Exports.DeliveryRuns

/-!
# Deliveries over a whole history

`Shelf` is what a delivery is for: one bundle, kept until it is retired, and retired once. Whatever
a session does to the records of an export, and wherever it stops, the shelf of the export makes
steps of that machine (`perform_serves`); so does a whole history of sessions with other work in
between (`deliveries_serve`).
-/

set_option autoImplicit false

namespace StaticHostAgent.Exports

open Library Contracts Contracts.OperatorProtocol

/-! ## The shelf -/

/-- The bundle of one export, and what became of its delivery. -/
structure Shelf where
  bundle : Option Bytes
  delivery : Option ExportDelivery

/-- The delivery is over. -/
def Shelf.Retired (s : Shelf) : Prop :=
  s.delivery = some .acknowledged ∨ s.delivery = some .expired

/-- A bundle on the shelf may be retired for an allowed reason; then it may be taken away. -/
inductive Shelf.Step (Allowed : RetirementReason → Prop) : Shelf → Shelf → Prop where
  | retire {bundle : Bytes} {delivery : Option ExportDelivery} {reason : RetirementReason}
      (hopen : delivery = none ∨ delivery = some .unacknowledged) (hallowed : Allowed reason) :
      Step Allowed ⟨some bundle, delivery⟩ ⟨some bundle, some reason.delivery⟩
  | remove {s : Shelf} (hretired : s.Retired) : Step Allowed s { s with bundle := none }

abbrev Shelf.Reaches (Allowed : RetirementReason → Prop) : Shelf → Shelf → Prop :=
  Relation.ReflTransGen (Shelf.Step Allowed)

section Shelves

variable {Allowed : RetirementReason → Prop} {s t : Shelf}

theorem RetirementReason.retires (reason : RetirementReason) :
    some reason.delivery = some ExportDelivery.acknowledged ∨
      some reason.delivery = some ExportDelivery.expired := by
  cases reason with
  | acknowledged => exact Or.inl rfl
  | expired => exact Or.inr rfl

/-- A retirement is final. -/
theorem Shelf.Reaches.final (h : Shelf.Reaches Allowed s t) (hretired : s.Retired) :
    t.delivery = s.delivery := by
  induction h with
  | refl => rfl
  | tail _ hstep ih =>
      cases hstep with
      | retire hopen _ =>
          rcases hretired with hretired | hretired <;> rcases hopen with hopen | hopen
          all_goals
            rw [hretired] at ih
            rw [show _ = _ from hopen] at ih
            cases ih
      | remove _ => exact ih

/-- Until it is retired, a bundle stays as it is. -/
theorem Shelf.Reaches.kept (h : Shelf.Reaches Allowed s t) (hopen : ¬ t.Retired) : t = s := by
  induction h with
  | refl => rfl
  | tail _ hstep _ =>
      cases hstep with
      | retire _ _ => exact absurd (RetirementReason.retires _) hopen
      | remove hretired => exact absurd hretired hopen

/-- A bundle is retired for an allowed reason, while it is on the shelf. -/
theorem Shelf.Reaches.reason (h : Shelf.Reaches Allowed s t) (hopen : ¬ s.Retired)
    (hretired : t.Retired) : s.bundle.isSome = true ∧
      ∃ reason, Allowed reason ∧ t.delivery = some reason.delivery := by
  induction h with
  | refl => exact absurd hretired hopen
  | @tail t u hpath hstep ih =>
      cases hstep with
      | @retire bundle delivery reason hunretired hallowed =>
          have hstart := Shelf.Reaches.kept hpath fun hover => by
            rcases hover with hover | hover <;> rcases hunretired with hnone | hnone
            all_goals
              rw [show delivery = _ from hover] at hnone
              cases hnone
          rw [← hstart]
          exact ⟨rfl, reason, hallowed, rfl⟩
      | remove hover => exact ih hover

end Shelves

/-! ## Sessions -/

/-- One locked session of the delivery; each reads the root clock once. -/
inductive DeliverySession where
  | receiving (receipt : ExportAcknowledgement) (operatorPrincipal : String) (origin : ClientId)
      (now : Nat)
  | opening (jobId : Uuid7) (expected : OperationResult) (now : Nat)
  | closing (jobId : Uuid7) (now : Nat)
  | reconcile (now : Nat)

def DeliverySession.now : DeliverySession → Nat
  | .receiving _ _ _ now | .opening _ _ now | .closing _ now | .reconcile now => now

def DeliverySession.perform (h : ExportHost) : DeliverySession → Export Unit
  | .receiving receipt operatorPrincipal origin now => do
      let _ ← acknowledge h receipt operatorPrincipal origin now
      pure ()
  | .opening jobId expected now => do
      let _ ← beginDownload h jobId expected now
      pure ()
  | .closing jobId now => endDownload h jobId now
  | .reconcile now => reconcileLocked h now

/-- The session retires the export for the reason: its clock is past the retention, or it brought
the receipt of the export's operator, which names the job and the bundle of its result. -/
def DeliverySession.Allows (h : ExportHost) (session : DeliverySession) (job : AuthorizationJob)
    (result : Option OperationResult) : RetirementReason → Prop
  | .expired => h.instant job.acceptedAt + exportRetention ≤ session.now
  | .acknowledged receipt origin =>
      (∃ now, session = .receiving receipt job.operatorPrincipal origin now) ∧
        job.jobId.text = receipt.jobId ∧
          ∃ bundle, (result.bind OperationResult.exportBundle) = some bundle ∧
            sha256Text bundle.digest.value = receipt.sha256 ∧ (bundle.size : Int) = receipt.size

/-- The shelf of an export. -/
def ExportWorld.shelf (w : ExportWorld) (jobId : Uuid7) : Shelf :=
  ⟨w.spool.completed.find? jobId, (w.jobs.find? jobId).bind AuthorizationJob.exportDelivery⟩

/-- A job without what became of its delivery. -/
def undelivered (job : AuthorizationJob) : AuthorizationJob := { job with exportDelivery := none }

/-- The authority of a job: all of it but what became of its delivery. -/
def ExportWorld.authority (w : ExportWorld) (jobId : Uuid7) : Option AuthorizationJob :=
  (w.jobs.find? jobId).map undelivered

/-- Which reasons retire an export, by the authority of its job and its result. -/
abbrev Allowance : Type := AuthorizationJob → Option OperationResult → RetirementReason → Prop

/-- The reasons that retire the export of a job in `w₀`. -/
def AllowedIn (Allowed : Allowance) (w₀ : ExportWorld) (jobId : Uuid7) (reason : RetirementReason) :
    Prop :=
  ∃ job, w₀.authority jobId = some job ∧ Allowed job (w₀.results.find? jobId) reason

/-- What became of the export of a job since `w₀`. -/
structure Serves (Allowed : Allowance) (jobId : Uuid7) (w₀ w : ExportWorld) : Prop where
  result : w.results.find? jobId = w₀.results.find? jobId
  authority : w.authority jobId = w₀.authority jobId
  shelf : Shelf.Reaches (AllowedIn Allowed w₀ jobId) (w₀.shelf jobId) (w.shelf jobId)

theorem Serves.trans {Allowed Later : Allowance} {jobId : Uuid7} {w₀ t u : ExportWorld}
    (h : Serves Allowed jobId w₀ t) (hlater : Serves Later jobId t u) :
    Serves (fun job result reason => Later job result reason ∨ Allowed job result reason)
      jobId w₀ u where
  result := hlater.result.trans h.result
  authority := hlater.authority.trans h.authority
  shelf := by
    refine Relation.ReflTransGen.trans
      (Relation.ReflTransGen.mono (fun s s' hstep => ?_) _ _ h.shelf)
      (Relation.ReflTransGen.mono (fun s s' hstep => ?_) _ _ hlater.shelf)
    · cases hstep with
      | retire hopen hallowed =>
          obtain ⟨job, hjob, hallowed⟩ := hallowed
          exact .retire hopen ⟨job, hjob, Or.inr hallowed⟩
      | remove hretired => exact .remove hretired
    · cases hstep with
      | retire hopen hallowed =>
          obtain ⟨job, hjob, hallowed⟩ := hallowed
          rw [h.authority] at hjob
          rw [h.result] at hallowed
          exact .retire hopen ⟨job, hjob, Or.inl hallowed⟩
      | remove hretired => exact .remove hretired

/-! ## Runs of a session -/

section Runs

variable {h : ExportHost} {Allowed : Allowance} {w₀ w : ExportWorld}

variable (Allowed w₀) in
/-- A state of a session that began in `w₀`: nothing but jobs, spool and marks has changed. -/
structure Served (w : ExportWorld) : Prop where
  each : ∀ jobId, Serves Allowed jobId w₀ w
  intents : w.intents = w₀.intents
  audit : w.audit = w₀.audit
  tenants : w.tenants = w₀.tenants
  published : w.published = w₀.published

theorem Served.start : Served Allowed w₀ w₀ :=
  ⟨fun _ => ⟨rfl, rfl, .refl⟩, rfl, rfl, rfl, rfl⟩

/-- A change beside the records and the bundles. -/
theorem Served.calm (hw : Served Allowed w₀ w) (failing : List Bool)
    (work : Option (Option Bytes)) :
    Served Allowed w₀ { w with failing := failing, spool := { w.spool with work := work } } :=
  ⟨fun jobId => ⟨(hw.each jobId).result, (hw.each jobId).authority, (hw.each jobId).shelf⟩,
    hw.intents, hw.audit, hw.tenants, hw.published⟩

theorem Served.failing (hw : Served Allowed w₀ w) (failing : List Bool) :
    Served Allowed w₀ { w with failing := failing } := hw.calm failing w.spool.work

/-- The bundle of a retired export is taken away. -/
theorem Served.remove {jobId : Uuid7} (hw : Served Allowed w₀ w)
    (hretired : (w.shelf jobId).Retired) :
    Served Allowed w₀ (w.setSpool fun spool =>
      { spool with completed := spool.completed.erase jobId }) where
  each j := by
    refine ⟨(hw.each j).result, (hw.each j).authority, ?_⟩
    by_cases hj : j = jobId
    · subst hj
      refine (hw.each j).shelf.tail ?_
      have hshelf : ExportWorld.shelf (w.setSpool fun spool =>
          { spool with completed := spool.completed.erase j }) j =
            { w.shelf j with bundle := none } := by
        show Shelf.mk ((w.spool.completed.erase j).find? j) _ = _
        rw [Directory.find?_erase_self]
        rfl
      rw [hshelf]
      exact .remove hretired
    · have hshelf : ExportWorld.shelf (w.setSpool fun spool =>
          { spool with completed := spool.completed.erase jobId }) j = w.shelf j := by
        show Shelf.mk ((w.spool.completed.erase jobId).find? j) _ = _
        rw [Directory.find?_erase_of_ne _ hj]
        rfl
      rw [hshelf]
      exact (hw.each j).shelf
  intents := hw.intents
  audit := hw.audit
  tenants := hw.tenants
  published := hw.published

/-- An export whose bundle is there is retired for an allowed reason. -/
theorem Served.mark {job : AuthorizationJob} {reason : RetirementReason} {bundle : Bytes}
    (hw : Served Allowed w₀ w) (hjob : w.jobs.find? job.jobId = some job)
    (hbundle : w.spool.completed.find? job.jobId = some bundle)
    (hopen : job.exportDelivery = none ∨ job.exportDelivery = some .unacknowledged)
    (hallowed : Allowed (undelivered job) (w.results.find? job.jobId) reason) :
    Served Allowed w₀
      ((w.setJob { job with exportDelivery := some reason.delivery }).mark job.jobId reason) where
  each j := by
    -- the marked job retires its delivery, every other keeps its authority and its shelf
    by_cases hj : j = job.jobId
    · subst hj
      have hauthority : w.authority job.jobId = some (undelivered job) := by
        unfold ExportWorld.authority
        rw [hjob]
        rfl
      have hnext : (w.jobs.insert job.jobId
          { job with exportDelivery := some reason.delivery }).find? job.jobId = some
            { job with exportDelivery := some reason.delivery } := Directory.find?_insert_self _ _ _
      have hbefore : w.shelf job.jobId = ⟨some bundle, job.exportDelivery⟩ := by
        unfold ExportWorld.shelf
        rw [hbundle, hjob]
        rfl
      have hafter : ExportWorld.shelf ((w.setJob
          { job with exportDelivery := some reason.delivery }).mark job.jobId reason) job.jobId =
            ⟨some bundle, some reason.delivery⟩ := by
        show Shelf.mk (w.spool.completed.find? job.jobId) (((w.jobs.insert job.jobId _).find?
          job.jobId).bind _) = _
        rw [hbundle, hnext]
        rfl
      refine ⟨(hw.each _).result, ?_, ?_⟩
      · rw [← (hw.each job.jobId).authority, hauthority]
        show ((w.jobs.insert job.jobId _).find? job.jobId).map undelivered = _
        rw [hnext]
        rfl
      · have hpath := (hw.each job.jobId).shelf
        rw [hbefore] at hpath
        rw [hafter]
        refine hpath.tail (.retire hopen ⟨undelivered job, ?_, ?_⟩)
        · rw [← (hw.each job.jobId).authority]
          exact hauthority
        · rw [← (hw.each job.jobId).result]
          exact hallowed
    · have hsame : (w.jobs.insert job.jobId
          { job with exportDelivery := some reason.delivery }).find? j = w.jobs.find? j :=
        Directory.find?_insert_of_ne _ hj _
      refine ⟨(hw.each j).result, ?_, ?_⟩
      · rw [← (hw.each j).authority]
        exact congrArg (Option.map undelivered) hsame
      · have hshelf : ExportWorld.shelf ((w.setJob
            { job with exportDelivery := some reason.delivery }).mark job.jobId reason) j =
              w.shelf j :=
          congrArg (fun found => Shelf.mk (w.spool.completed.find? j)
            (Option.bind found AuthorizationJob.exportDelivery)) hsame
        rw [hshelf]
        exact (hw.each j).shelf
  intents := hw.intents
  audit := hw.audit
  tenants := hw.tenants
  published := hw.published

variable (Allowed w₀) in
/-- A program that only serves. -/
abbrev Serving {α : Type} (w : ExportWorld) (p : Export α) (Post : α → ExportWorld → Prop) : Prop :=
  Durable.Spec w p (Served Allowed w₀) (fun a t => Served Allowed w₀ t ∧ Post a t)
    (fun _ t => Served Allowed w₀ t)

/-- Nothing but which calls fail has changed. -/
def Calmly (w t : ExportWorld) : Prop := ∃ failing, t = { w with failing := failing }

theorem serving_attempt (hw : Served Allowed w₀ w) (error : ExportError) :
    Serving Allowed w₀ w (attempt error) fun _ => Calmly w := by
  refine Durable.Spec.query_bind (fun _ herror => (nomatch herror)) fun _ _ => ?_
  have hnext := hw.failing w.failing.tail
  refine Durable.Spec.bind (M := fun _ t => t = { w with failing := w.failing.tail })
    (Durable.Spec.effect hnext rfl) ?_
  rintro _ t rfl
  exact Durable.Spec.query (fun _ _ => ⟨hnext, _, rfl⟩) fun _ _ => hnext

theorem serving_completedJobId (hw : Served Allowed w₀ w) :
    Serving Allowed w₀ w completedJobId fun found t =>
      Calmly w t ∧ found = w.spool.completed.keys.head? := by
  refine Durable.Spec.bind (serving_attempt hw .os) ?_
  rintro _ t ⟨ht, failing, rfl⟩
  refine Durable.Spec.query (fun found hfound => ?_) fun _ _ => ht
  obtain ⟨_, -, hfound⟩ := bind_eq_ok.1 hfound
  exact ⟨ht, ⟨failing, rfl⟩, (pure_eq_ok.1 hfound).symm⟩

theorem serving_removeCompleted {jobId : Uuid7} (hw : Served Allowed w₀ w)
    (hretired : (w.shelf jobId).Retired) :
    Serving Allowed w₀ w (removeCompleted jobId) fun _ _ => True := by
  refine Durable.Spec.bind (serving_completedJobId hw) ?_
  rintro current t ⟨ht, ⟨failing, rfl⟩, -⟩
  refine Durable.Spec.query_bind (fun _ _ => ht) fun _ _ => ?_
  refine Durable.Spec.bind (M := fun _ u => Served Allowed w₀ u) (Durable.Spec.when (fun _ => ?_)
    fun _ => ht) fun _ u hu => (serving_attempt hu .os).weaken (fun _ => id)
      (fun _ _ hv => ⟨hv.1, trivial⟩) fun _ _ => id
  refine Durable.Spec.bind (serving_attempt ht .os) ?_
  rintro _ u ⟨hu, failing', rfl⟩
  exact Durable.Spec.effect (hu.remove hretired) (hu.remove hretired)

/-- A retirement marks the export and takes its bundle away. -/
theorem serving_retire {jobId : Uuid7} {reason : RetirementReason} (hw : Served Allowed w₀ w)
    (hbundle : (w.spool.completed.find? jobId).isSome = true)
    (hallowed : ∀ job, w.jobs.find? jobId = some job → job.jobId = jobId →
      Allowed (undelivered job) (w.results.find? jobId) reason) :
    Serving Allowed w₀ w (retire jobId reason) fun _ _ => True := by
  obtain ⟨bundle, hbundle⟩ := Option.isSome_iff_exists.1 hbundle
  refine Durable.Spec.bind (M := fun _ t => Served Allowed w₀ t ∧ (t.shelf jobId).Retired) ?_ ?_
  · refine Durable.Spec.query_bind (fun _ _ => hw) fun job hjob => ?_
    obtain ⟨hjob, rfl⟩ := findJob_ok hjob
    refine Durable.Spec.query_bind (fun _ _ => hw) fun _ hvalidated => ?_
    have hopen := require_eq_ok.1 hvalidated
    simp only [Bool.and_eq_true, decide_eq_true_eq, List.mem_cons, List.not_mem_nil,
      or_false] at hopen
    refine Durable.Spec.query_bind (fun _ _ => hw) fun _ _ => ?_
    refine Durable.Spec.query_bind (fun _ _ => hw) fun _ _ => ?_
    refine Durable.Spec.bind (serving_attempt hw .capacity) ?_
    rintro _ t ⟨ht, failing, rfl⟩
    have hmarked := ht.mark hjob hbundle hopen.2 (hallowed job hjob rfl)
    refine Durable.Spec.effect hmarked ⟨hmarked, ?_⟩
    show (Shelf.mk _ (((w.jobs.insert job.jobId _).find? job.jobId).bind _)).Retired
    rw [Directory.find?_insert_self]
    exact reason.retires
  · rintro _ t ⟨ht, hretired⟩
    refine Durable.Spec.bind (serving_attempt ht .os) ?_
    rintro _ u ⟨hu, failing, rfl⟩
    exact serving_removeCompleted hu hretired

/-- Finding an export available retires it at most for its age. -/
theorem serving_available {job : AuthorizationJob} {now : Nat} (hw : Served Allowed w₀ w)
    (hjob : w.jobs.find? job.jobId = some job)
    (hexpired : h.instant job.acceptedAt + exportRetention ≤ now →
      Allowed (undelivered job) (w.results.find? job.jobId) .expired) :
    Serving Allowed w₀ w (available h job now) fun isAvailable t => isAvailable = true →
      Calmly w t ∧ (w.spool.completed.find? job.jobId).isSome = true := by
  refine Durable.Spec.bind (serving_completedJobId hw) ?_
  rintro occupied t ⟨ht, ⟨failing, rfl⟩, rfl⟩
  split
  · rename_i hdelivery
    simp only [List.mem_cons, List.not_mem_nil, or_false] at hdelivery
    have hretired : ((ExportWorld.mk w.jobs w.results w.intents w.audit w.tenants w.platform w.spool
        failing w.retirements w.published).shelf job.jobId).Retired := by
      unfold Shelf.Retired ExportWorld.shelf
      rw [hjob]
      exact hdelivery
    refine Durable.Spec.bind (M := fun _ u => Served Allowed w₀ u) (Durable.Spec.when
      (fun _ => (serving_removeCompleted ht hretired).weaken (fun _ => id) (fun _ _ => And.left)
        fun _ _ => id) fun _ => ht) fun _ _ hu => Durable.Spec.pure ⟨hu, fun hfalse => ?_⟩
    cases hfalse
  · refine Durable.Spec.query_bind (fun _ _ => ht) fun result _ => ?_
    refine Durable.Spec.query_bind (fun _ _ => ht) fun retired _ => ?_
    split
    · refine Durable.Spec.pure ⟨ht, fun hfalse => ?_⟩
      cases hfalse
    · refine Durable.Spec.query_bind (fun _ _ => ht) fun _ hoccupied => ?_
      have hoccupied : w.spool.completed.keys.head? = some job.jobId :=
        of_decide_eq_true (require_eq_ok.1 hoccupied)
      have hbundle : (w.spool.completed.find? job.jobId).isSome = true :=
        Directory.mem_keys.1 (List.mem_of_head? hoccupied)
      split
      · rename_i hage
        refine Durable.Spec.bind (serving_retire ht hbundle fun found hfound _ => ?_)
          fun _ _ hu => Durable.Spec.pure ⟨hu.1, fun hfalse => ?_⟩
        · obtain rfl : job = found := Option.some.inj (hjob.symm.trans hfound)
          exact hexpired hage
        · cases hfalse
      · exact Durable.Spec.pure ⟨ht, fun _ => ⟨⟨failing, rfl⟩, hbundle⟩⟩

theorem serving_acknowledge (receipt : ExportAcknowledgement) (principal : String)
    (origin : ClientId) (now : Nat) :
    Serving (DeliverySession.Allows h (.receiving receipt principal origin now)) w w
      (acknowledge h receipt principal origin now) fun _ _ => True := by
  have hstart : Served (DeliverySession.Allows h (.receiving receipt principal origin now)) w w :=
    Served.start
  refine Durable.Spec.query_bind (fun _ _ => hstart) fun _ _ => ?_
  refine Durable.Spec.query_bind (fun _ _ => hstart) fun jobId hjobId => ?_
  refine Durable.Spec.query_bind (fun _ _ => hstart) fun read hread => ?_
  obtain ⟨job, result⟩ := read
  obtain ⟨hjob, rfl, hresult, -⟩ := readDelivery_ok hread
  refine Durable.Spec.query_bind (fun _ _ => hstart) fun _ hbinds => ?_
  have hbinds := require_eq_ok.1 hbinds
  rw [Bool.and_eq_true, decide_eq_true_eq] at hbinds
  obtain ⟨bundle, hbundle, hmatch⟩ := (Option.any_eq_true _ _).1 hbinds.2
  rw [Bool.and_eq_true, decide_eq_true_eq, decide_eq_true_eq] at hmatch
  refine Durable.Spec.bind (serving_available hstart hjob fun hage : _ ≤ now => hage) ?_
  rintro isAvailable t ⟨ht, havailable⟩
  -- an export that was found available still has its bundle
  refine Durable.Spec.bind (M := fun _ u => Served _ w u) (Durable.Spec.when
    (fun htrue => ?_) fun _ => ht) fun _ _ hu => Durable.Spec.pure ⟨hu, trivial⟩
  obtain ⟨⟨failing, rfl⟩, hpresent⟩ := havailable htrue
  refine (serving_retire ht hpresent fun found hfound _ => ?_).weaken (fun _ => id)
    (fun _ _ => And.left) fun _ _ => id
  obtain rfl : job = found := Option.some.inj (hjob.symm.trans hfound)
  refine ⟨⟨now, ?_⟩, jobOfText_ok hjobId, bundle, ?_, hmatch⟩
  · rw [show (undelivered job).operatorPrincipal = principal from hbinds.1]
  · rw [hresult]
    exact hbundle

/-- Whatever a session does, and wherever it stops, it serves. -/
theorem perform_serves (session : DeliverySession) :
    Serving (session.Allows h) w w (session.perform h) fun _ _ => True := by
  have hstart : Served (session.Allows h) w w := Served.start
  cases session with
  | receiving receipt principal origin now =>
      exact Durable.Spec.bind (serving_acknowledge receipt principal origin now) fun _ _ ht =>
        Durable.Spec.pure ht
  | opening jobId expected now =>
      refine Durable.Spec.bind (M := fun _ t => Served _ w t) ?_ fun _ _ ht =>
        Durable.Spec.pure ⟨ht, trivial⟩
      refine Durable.Spec.query_bind (fun _ _ => hstart) fun read hread => ?_
      obtain ⟨hjob, hid, -, -⟩ := readDelivery_ok hread
      rw [← hid] at hjob
      refine Durable.Spec.query_bind (fun _ _ => hstart) fun _ _ => ?_
      exact (serving_available hstart hjob fun hage => hage).weaken (fun _ => id)
        (fun _ _ => And.left) fun _ _ => id
  | closing jobId now =>
      refine Durable.Spec.query_bind (fun _ _ => hstart) fun read hread => ?_
      obtain ⟨hjob, hid, -, -⟩ := readDelivery_ok hread
      rw [← hid] at hjob
      exact Durable.Spec.bind (serving_available hstart hjob fun hage => hage) fun _ _ ht =>
        Durable.Spec.pure ⟨ht.1, trivial⟩
  | reconcile now =>
      refine Durable.Spec.bind (M := fun _ t => ∃ failing work, t =
        { w with failing := failing, spool := { w.spool with work := work } }) ?_ ?_
      · refine Durable.Spec.bind (serving_attempt hstart .os) ?_
        rintro _ t ⟨-, failing, rfl⟩
        refine Durable.Spec.bind (M := fun _ u => u =
          { w with failing := failing, spool := { w.spool with work := none } })
          (Durable.Spec.effect (hstart.calm failing none) rfl) ?_
        rintro _ u rfl
        refine (serving_attempt (hstart.calm failing none) .os).weaken (fun _ => id) ?_
          fun _ _ => id
        rintro _ v ⟨-, failing', rfl⟩
        exact ⟨failing', none, rfl⟩
      · rintro _ t ⟨failing, work, rfl⟩
        have ht := hstart.calm failing work
        refine Durable.Spec.bind (serving_completedJobId ht) ?_
        rintro found u ⟨hu, ⟨failing', rfl⟩, -⟩
        cases found with
        | none => exact Durable.Spec.pure ⟨hu, trivial⟩
        | some jobId =>
            refine Durable.Spec.query_bind (fun _ _ => hu) fun _ _ => ?_
            refine Durable.Spec.when (fun _ => ?_) fun _ => ⟨hu, trivial⟩
            refine Durable.Spec.query_bind (fun _ _ => hu) fun read hread => ?_
            obtain ⟨hjob, hid, -, -⟩ := readDelivery_ok hread
            rw [← hid] at hjob
            exact Durable.Spec.bind (serving_available hu hjob fun hage => hage) fun _ _ hv =>
              Durable.Spec.pure ⟨hv.1, trivial⟩

end Runs

/-! ## Histories -/

/-- Other parts of the host leave the export of a job alone; calls may fail otherwise. -/
structure Elsewhere (jobId : Uuid7) (w w' : ExportWorld) : Prop where
  job : w'.jobs.find? jobId = w.jobs.find? jobId
  result : w'.results.find? jobId = w.results.find? jobId
  bundle : w'.spool.completed.find? jobId = w.spool.completed.find? jobId

/-- Sessions of the delivery one after the other, the last one first. Each may end, or stop after
any of its changes, and other work may come in between. -/
inductive Deliveries (h : ExportHost) (jobId : Uuid7) :
    List DeliverySession → ExportWorld → ExportWorld → Prop where
  | start (w : ExportWorld) : Deliveries h jobId [] w w
  | session {H : List DeliverySession} {w t u : ExportWorld} (before : Deliveries h jobId H w t)
      (session : DeliverySession)
      (hrun : u = (session.perform h t).state ∨ Durable.Crashed (session.perform h) t u) :
      Deliveries h jobId (session :: H) w u
  | elsewhere {H : List DeliverySession} {w t u : ExportWorld} (before : Deliveries h jobId H w t)
      (hother : Elsewhere jobId t u) : Deliveries h jobId H w u

section Histories

variable {h : ExportHost} {jobId : Uuid7} {H : List DeliverySession} {w₀ w t : ExportWorld}

theorem Elsewhere.serves (hother : Elsewhere jobId w t) :
    Serves (fun _ _ _ => False) jobId w t where
  result := hother.result
  authority := congrArg (Option.map undelivered) hother.job
  shelf := by
    have hshelf : t.shelf jobId = w.shelf jobId := by
      unfold ExportWorld.shelf
      rw [hother.job, hother.bundle]
    rw [hshelf]

theorem session_serves {session : DeliverySession}
    (hrun : t = (session.perform h w).state ∨ Durable.Crashed (session.perform h) w t) :
    Serves (session.Allows h) jobId w t := by
  have hspec := @perform_serves h w session
  have hend : Served (session.Allows h) w (session.perform h w).state := by
    cases hresult : (session.perform h w).result with
    | ok u => exact (hspec.post u hresult).1
    | error e => exact hspec.raised e hresult
  rcases hrun with rfl | rfl | hvisited
  · exact hend.each jobId
  · exact Served.start.each jobId
  · exact (hspec.visited t hvisited).each jobId

theorem Serves.mono {Allowed Wider : Allowance} (h : Serves Allowed jobId w₀ w)
    (hwider : ∀ job result reason, Allowed job result reason → Wider job result reason) :
    Serves Wider jobId w₀ w where
  result := h.result
  authority := h.authority
  shelf := by
    refine Relation.ReflTransGen.mono (fun s s' hstep => ?_) _ _ h.shelf
    cases hstep with
    | retire hopen hallowed =>
        obtain ⟨job, hjob, hallowed⟩ := hallowed
        exact .retire hopen ⟨job, hjob, hwider _ _ _ hallowed⟩
    | remove hretired => exact .remove hretired

/-- A history retires an export only for what one of its sessions allows. -/
theorem deliveries_serve (hrun : Deliveries h jobId H w₀ w) :
    Serves (fun job result reason => ∃ session ∈ H, session.Allows h job result reason)
      jobId w₀ w := by
  induction hrun with
  | start w => exact ⟨rfl, rfl, .refl⟩
  | session before session hrun ih =>
      refine (ih.trans (session_serves hrun)).mono ?_
      rintro job result reason (hallowed | ⟨earlier, hearlier, hallowed⟩)
      · exact ⟨session, List.mem_cons_self, hallowed⟩
      · exact ⟨earlier, List.mem_cons_of_mem _ hearlier, hallowed⟩
  | elsewhere before hother ih =>
      refine (ih.trans hother.serves).mono ?_
      rintro job result reason (hnever | hallowed)
      · exact hnever.elim
      · exact hallowed

end Histories

end StaticHostAgent.Exports
