import StaticHostAgent.Exports.Delivery

/-!
# What a delivery may change

A download, a receipt and a reconciliation change results never, jobs only by the mark of a
retirement, and they record each mark. `Delivers` says so for every state on the way; which marks
are allowed is a parameter.
-/

set_option autoImplicit false

namespace StaticHostAgent.Exports

open Library Contracts Contracts.OperatorProtocol

/-- Every job that is marked as acknowledged was marked for a receipt. -/
def Marked (w : ExportWorld) : Prop :=
  ∀ jobId job, w.jobs.find? jobId = some job → job.exportDelivery = some .acknowledged →
    ∃ receipt origin, (jobId, RetirementReason.acknowledged receipt origin) ∈ w.retirements

/-- A state of a delivery that began in `w₀`. -/
structure Delivers (Allowed : Uuid7 × RetirementReason → Prop) (w₀ w : ExportWorld) : Prop where
  results : w.results = w₀.results
  marked : Marked w₀ → Marked w
  retirements : ∀ m ∈ w.retirements, m ∈ w₀.retirements ∨ Allowed m

/-- The marks of a session: an expiry, or an acknowledgement by a receipt that names the bundle of
the result. -/
def ReceiptMark (w₀ : ExportWorld) (receipt : ExportAcknowledgement) (origin : ClientId)
    (m : Uuid7 × RetirementReason) : Prop :=
  m.2 = .expired ∨ (m.2 = .acknowledged receipt origin ∧ m.1.text = receipt.jobId ∧
    ∃ result bundle, w₀.results.find? m.1 = some result ∧ result.exportBundle = some bundle ∧
      sha256Text bundle.digest.value = receipt.sha256 ∧ (bundle.size : Int) = receipt.size)

section Runs

variable {h : ExportHost} {Allowed : Uuid7 × RetirementReason → Prop} {w₀ w : ExportWorld}

theorem Delivers.start : Delivers Allowed w₀ w₀ := ⟨rfl, id, fun _ hm => Or.inl hm⟩

/-- A step that keeps jobs, results and marks. -/
theorem Delivers.keep {w' : ExportWorld} (hw : Delivers Allowed w₀ w) (hjobs : w'.jobs = w.jobs)
    (hresults : w'.results = w.results) (hmarks : w'.retirements = w.retirements) :
    Delivers Allowed w₀ w' where
  results := hresults.trans hw.results
  marked hstart jobId job hjob hdelivery := by
    rw [hjobs] at hjob
    rw [hmarks]
    exact hw.marked hstart jobId job hjob hdelivery
  retirements := by
    rw [hmarks]
    exact hw.retirements

/-- The mark of a retirement. -/
theorem Delivers.mark {job job' : AuthorizationJob} {reason : RetirementReason}
    (hw : Delivers Allowed w₀ w) (hsame : job'.jobId = job.jobId)
    (hdelivery : job'.exportDelivery = some reason.delivery) (hallowed : Allowed (job.jobId, reason)) :
    Delivers Allowed w₀ ((w.setJob job').mark job.jobId reason) where
  results := hw.results
  marked hstart jobId found hfound hacknowledged := by
    change (w.jobs.insert job'.jobId job').find? jobId = some found at hfound
    rw [hsame] at hfound
    by_cases hjobId : jobId = job.jobId
    · subst hjobId
      rw [Directory.find?_insert_self] at hfound
      obtain rfl := Option.some.inj hfound
      rw [hdelivery] at hacknowledged
      cases reason with
      | expired => cases hacknowledged
      | acknowledged receipt origin => exact ⟨receipt, origin, List.mem_cons_self⟩
    · rw [Directory.find?_insert_of_ne _ hjobId] at hfound
      obtain ⟨receipt, origin, hmem⟩ := hw.marked hstart jobId found hfound hacknowledged
      exact ⟨receipt, origin, List.mem_cons_of_mem _ hmem⟩
  retirements m hm := by
    rcases List.mem_cons.1 hm with rfl | hm
    · exact Or.inr hallowed
    · exact hw.retirements m hm

variable (Allowed w₀) in
/-- A program that only delivers. -/
abbrev Keeps {α : Type} (w : ExportWorld) (p : Export α) (Post : α → Prop) : Prop :=
  Durable.Spec w p (Delivers Allowed w₀) (fun a t => Delivers Allowed w₀ t ∧ Post a)
    (fun _ t => Delivers Allowed w₀ t)

theorem keeps_attempt (hw : Delivers Allowed w₀ w) (error : ExportError) :
    Keeps Allowed w₀ w (attempt error) (fun _ => True) := by
  refine Durable.Spec.query_bind (fun _ herror => (nomatch herror)) fun _ _ => ?_
  have hnext : Delivers Allowed w₀ { w with failing := w.failing.tail } := hw.keep rfl rfl rfl
  refine Durable.Spec.bind (M := fun _ t => Delivers Allowed w₀ t)
    (Durable.Spec.effect hnext hnext) fun _ t ht => ?_
  exact Durable.Spec.query (fun _ _ => ⟨ht, trivial⟩) fun _ _ => ht

theorem keeps_completedJobId (hw : Delivers Allowed w₀ w) :
    Keeps Allowed w₀ w completedJobId (fun _ => True) :=
  Durable.Spec.bind (keeps_attempt hw .os) fun _ _ ht =>
    Durable.Spec.query (fun _ _ => ⟨ht.1, trivial⟩) fun _ _ => ht.1

/-- A change of the spool. -/
theorem keeps_spool (hw : Delivers Allowed w₀ w) (f : Spool → Spool) :
    Keeps Allowed w₀ w (Durable.effect (ExportWorld.setSpool f)) (fun _ => True) :=
  Durable.Spec.effect (hw.keep rfl rfl rfl) ⟨hw.keep rfl rfl rfl, trivial⟩

theorem keeps_discardWorkspace (hw : Delivers Allowed w₀ w) :
    Keeps Allowed w₀ w discardWorkspace (fun _ => True) := by
  refine Durable.Spec.bind (keeps_attempt hw .os) fun _ _ ht => ?_
  refine Durable.Spec.bind (keeps_spool ht.1 _) fun _ _ hu => ?_
  exact keeps_attempt hu.1 .os

theorem keeps_removeCompleted (hw : Delivers Allowed w₀ w) (jobId : Uuid7) :
    Keeps Allowed w₀ w (removeCompleted jobId) (fun _ => True) := by
  refine Durable.Spec.bind (keeps_completedJobId hw) fun current t ht => ?_
  refine Durable.Spec.query_bind (fun _ _ => ht.1) fun _ _ => ?_
  refine Durable.Spec.bind (M := fun _ u => Delivers Allowed w₀ u ∧ True)
    (Durable.Spec.when (fun _ => ?_) fun _ => ht) fun _ u hu => keeps_attempt hu.1 .os
  refine Durable.Spec.bind (keeps_attempt ht.1 .os) fun _ _ hu => ?_
  exact keeps_spool hu.1 _

theorem findJob_ok {jobId : Uuid7} {job : AuthorizationJob} (hjob : findJob w jobId = .ok job) :
    w.jobs.find? jobId = some job ∧ job.jobId = jobId := by
  unfold findJob at hjob
  split at hjob
  · cases hjob
  · rename_i found hfound
    obtain ⟨_, hsame, hjob⟩ := bind_eq_ok.1 hjob
    obtain rfl := pure_eq_ok.1 hjob
    exact ⟨hfound, of_decide_eq_true (require_eq_ok.1 hsame)⟩

theorem findResult_ok {jobId : Uuid7} {result : OperationResult}
    (hresult : findResult w jobId = .ok result) :
    w.results.find? jobId = some result ∧ result.provenance = .authorizationJob jobId := by
  unfold findResult at hresult
  split at hresult
  · cases hresult
  · rename_i found hfound
    obtain ⟨_, hsame, hresult⟩ := bind_eq_ok.1 hresult
    obtain rfl := pure_eq_ok.1 hresult
    exact ⟨hfound, of_decide_eq_true (require_eq_ok.1 hsame)⟩

/-- A retirement marks its job once, if the mark is allowed. -/
theorem keeps_retire (hw : Delivers Allowed w₀ w) {jobId : Uuid7} {reason : RetirementReason}
    (hallowed : Allowed (jobId, reason)) :
    Keeps Allowed w₀ w (retire jobId reason) (fun _ => True) := by
  refine Durable.Spec.bind (M := fun _ t => Delivers Allowed w₀ t) ?_ fun _ t ht => ?_
  · refine Durable.Spec.query_bind (fun _ _ => hw) fun job hjob => ?_
    obtain ⟨-, rfl⟩ := findJob_ok hjob
    refine Durable.Spec.query_bind (fun _ _ => hw) fun _ _ => ?_
    refine Durable.Spec.query_bind (fun _ _ => hw) fun _ _ => ?_
    refine Durable.Spec.query_bind (fun _ _ => hw) fun _ _ => ?_
    refine Durable.Spec.bind (keeps_attempt hw .capacity) fun _ t ht => ?_
    have hmarked : Delivers Allowed w₀
        ((t.setJob { job with exportDelivery := some reason.delivery }).mark job.jobId reason) :=
      ht.1.mark rfl rfl hallowed
    exact Durable.Spec.effect hmarked hmarked
  · exact Durable.Spec.bind (keeps_attempt ht .os) fun _ _ hu => keeps_removeCompleted hu.1 jobId

/-- Finding an export available marks at most its expiry. -/
theorem keeps_available (hw : Delivers Allowed w₀ w) (job : AuthorizationJob) (now : Nat)
    (hallowed : Allowed (job.jobId, .expired)) :
    Keeps Allowed w₀ w (available h job now) (fun _ => True) := by
  refine Durable.Spec.bind (keeps_completedJobId hw) fun occupied t ht => ?_
  split
  · refine Durable.Spec.bind (Durable.Spec.when (fun _ => keeps_removeCompleted ht.1 _)
      fun _ => ht) fun _ _ hu => ?_
    exact Durable.Spec.pure hu
  · refine Durable.Spec.query_bind (fun _ _ => ht.1) fun result _ => ?_
    refine Durable.Spec.query_bind (fun _ _ => ht.1) fun retired _ => ?_
    split
    · exact Durable.Spec.pure ht
    · refine Durable.Spec.query_bind (fun _ _ => ht.1) fun _ _ => ?_
      split
      · exact Durable.Spec.bind (keeps_retire ht.1 hallowed) fun _ _ hu => Durable.Spec.pure hu
      · exact Durable.Spec.pure ht

theorem readDelivery_ok {jobId : Uuid7} {job : AuthorizationJob} {result : OperationResult}
    (hread : (do
      let job ← findJob w jobId
      let result ← findResult w jobId
      require (deliverable jobId job result)
        (.delivery "download has no validated export authority")
      pure (job, result) : Except ExportError (AuthorizationJob × OperationResult)) =
        .ok (job, result)) :
    w.jobs.find? jobId = some job ∧ job.jobId = jobId ∧ w.results.find? jobId = some result ∧
      deliverable jobId job result = true := by
  obtain ⟨found, hfound, hread⟩ := bind_eq_ok.1 hread
  obtain ⟨foundResult, hfoundResult, hread⟩ := bind_eq_ok.1 hread
  obtain ⟨_, hdeliverable, hread⟩ := bind_eq_ok.1 hread
  cases pure_eq_ok.1 hread
  obtain ⟨hjob, hsame⟩ := findJob_ok hfound
  exact ⟨hjob, hsame, (findResult_ok hfoundResult).1, require_eq_ok.1 hdeliverable⟩

theorem jobOfText_ok {text : String} {jobId : Uuid7} (hjob : jobOfText w text = .ok jobId) :
    jobId.text = text := by
  unfold jobOfText at hjob
  split at hjob
  · cases hjob
  · rename_i found hfound
    cases hjob
    simpa using List.find?_some hfound

/-- A receipt marks only the export whose bundle it names. -/
theorem acknowledge_delivers (receipt : ExportAcknowledgement) (principal : String)
    (origin : ClientId) (now : Nat) :
    Keeps (ReceiptMark w₀ receipt origin) w₀ w₀ (acknowledge h receipt principal origin now)
      (fun _ => True) := by
  have hstart : Delivers (ReceiptMark w₀ receipt origin) w₀ w₀ := Delivers.start
  refine Durable.Spec.query_bind (fun _ _ => hstart) fun _ _ => ?_
  refine Durable.Spec.query_bind (fun _ _ => hstart) fun jobId hjobId => ?_
  refine Durable.Spec.query_bind (fun _ _ => hstart) fun read hread => ?_
  obtain ⟨job, result⟩ := read
  obtain ⟨-, hjob, hresult, -⟩ := readDelivery_ok hread
  refine Durable.Spec.query_bind (fun _ _ => hstart) fun _ hbinds => ?_
  have hbinds := require_eq_ok.1 hbinds
  rw [Bool.and_eq_true, decide_eq_true_eq] at hbinds
  obtain ⟨bundle, hbundle, hmatch⟩ := (Option.any_eq_true _ _).1 hbinds.2
  rw [Bool.and_eq_true, decide_eq_true_eq, decide_eq_true_eq] at hmatch
  refine Durable.Spec.bind (keeps_available hstart job now (Or.inl rfl)) fun isAvailable t ht => ?_
  refine Durable.Spec.bind (M := fun _ u => Delivers (ReceiptMark w₀ receipt origin) w₀ u ∧ True)
    (Durable.Spec.when (fun _ => keeps_retire ht.1 ?_) fun _ => ht) fun _ _ hu =>
      Durable.Spec.pure hu
  exact Or.inr ⟨rfl, jobOfText_ok hjobId, result, bundle, hresult, hbundle, hmatch.1, hmatch.2⟩

/-- The other sessions mark expiries only. -/
theorem beginDownload_delivers (jobId : Uuid7) (expected : OperationResult) (now : Nat) :
    Keeps (fun m => m.2 = .expired) w₀ w₀ (beginDownload h jobId expected now)
      (fun _ => True) := by
  refine Durable.Spec.query_bind (fun _ _ => Delivers.start) fun read _ => ?_
  refine Durable.Spec.query_bind (fun _ _ => Delivers.start) fun _ _ => ?_
  exact keeps_available Delivers.start read.1 now rfl

theorem endDownload_delivers (jobId : Uuid7) (now : Nat) :
    Keeps (fun m => m.2 = .expired) w₀ w₀ (endDownload h jobId now) (fun _ => True) := by
  refine Durable.Spec.query_bind (fun _ _ => Delivers.start) fun read _ => ?_
  exact Durable.Spec.bind (keeps_available Delivers.start read.1 now rfl) fun _ _ ht =>
    Durable.Spec.pure ht

theorem reconcileLocked_delivers (now : Nat) :
    Keeps (fun m => m.2 = .expired) w₀ w₀ (reconcileLocked h now) (fun _ => True) := by
  refine Durable.Spec.bind (keeps_discardWorkspace Delivers.start) fun _ t ht => ?_
  refine Durable.Spec.bind (keeps_completedJobId ht.1) fun found u hu => ?_
  cases found with
  | none => exact Durable.Spec.pure hu
  | some jobId =>
      refine Durable.Spec.query_bind (fun _ _ => hu.1) fun job _ => ?_
      refine Durable.Spec.when (fun _ => ?_) fun _ => hu
      refine Durable.Spec.query_bind (fun _ _ => hu.1) fun read _ => ?_
      exact Durable.Spec.bind (keeps_available hu.1 read.1 now rfl) fun _ _ hv =>
        Durable.Spec.pure hv

end Runs

end StaticHostAgent.Exports
