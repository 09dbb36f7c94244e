import StaticHostAgent.Caddy.Startup
import StaticHostAgent.Library.AsciiJson
import StaticHostAgent.Library.Restartable

/-!
# Runs of the start-intent store

`perform_outcome` is the one inversion of the store's calls: a call stops, returns without a change,
writes an intent that follows from the one in the file, or removes the file. From it come the
invariants of all runs, with the starts that were granted since the file was last absent as ghost
state.
-/

set_option autoImplicit false

namespace StaticHostAgent.Caddy

open Library Contracts

/-- A recovering intent selects the previous generation. -/
theorem selectedTarget_ne {j : CaddyStartIntent} (hphase : j.phase = .recoveryStarting) :
    j.selectedTarget ≠ j.candidate := by
  cases (StartFields.valid_of_postInit j.checked).shape with
  | recoveryStarting target _ _ hprevious hdistinct =>
      unfold CaddyStartIntent.selectedTarget
      rw [hphase, hprevious]
      exact hdistinct
  | restorePrepared _ _ _ _ _ h | prepared _ _ _ _ _ h =>
      rcases h with h | h <;> rw [hphase] at h <;> cases h
  | restoreStarting _ _ _ _ _ h | ordinary _ _ _ h | candidateStarting _ _ _ _ _ h
  | rollbackRequired _ _ _ _ _ h =>
      rw [hphase] at h
      cases h

section Outcomes

variable (json : JsonText)

/-- The file holds the bytes of the intent. -/
def Stores (store : StartStore) (intent : CaddyStartIntent) : Prop :=
  ∃ raw, store = some raw ∧ intent.toBytes json = .ok raw

/-- A fresh intent under which nothing was started. -/
structure Fresh (i : CaddyStartIntent) : Prop where
  candidate : i.candidateInvocations = []
  recovery : i.recoveryInvocations = []

/-- One intent follows another one of the same operation. -/
structure SameOperation (i j : CaddyStartIntent) : Prop where
  mode : j.mode = i.mode
  candidate : j.candidate = i.candidate
  previous : j.previous = i.previous
  restoreId : j.restoreId = i.restoreId

/-- The intents that a call may write over what it found in the file. -/
inductive Writes : StartOperation → Option CaddyStartIntent → CaddyStartIntent → Prop where
  | begun (op : StartOperation) (i : CaddyStartIntent)
      (hop : ∀ active id, op ≠ .prepareStart active id) (hfresh : Fresh i) : Writes op none i
  | marked (op : StartOperation) (i j : CaddyStartIntent)
      (hop : ∀ active id, op ≠ .prepareStart active id) (hsame : SameOperation i j)
      (hcandidate : j.candidateInvocations = i.candidateInvocations)
      (hrecovery : j.recoveryInvocations = i.recoveryInvocations) : Writes op (some i) j
  | started (active : CaddyStartTarget) (id : String) (j : CaddyStartIntent)
      (hactive : j.selectedTarget = active) (htarget : j.selectedTarget = j.candidate)
      (hcandidate : j.candidateInvocations = [id]) (hrecovery : j.recoveryInvocations = []) :
      Writes (.prepareStart active id) none j
  | attempted (active : CaddyStartTarget) (id : String) (i j : CaddyStartIntent)
      (hsame : SameOperation i j) (hactive : j.selectedTarget = active)
      (htarget : j.selectedTarget = j.candidate)
      (hcandidate : j.candidateInvocations = i.candidateInvocations ++ [id])
      (hrecovery : j.recoveryInvocations = i.recoveryInvocations) :
      Writes (.prepareStart active id) (some i) j
  | recovered (active : CaddyStartTarget) (id : String) (i j : CaddyStartIntent)
      (hsame : SameOperation i j) (hactive : j.selectedTarget = active)
      (htarget : j.selectedTarget ≠ j.candidate)
      (hcandidate : j.candidateInvocations = i.candidateInvocations)
      (hrecovery : j.recoveryInvocations = i.recoveryInvocations ++ [id]) :
      Writes (.prepareStart active id) (some i) j

/-- The calls that may remove the intent in the file. -/
inductive Removes : StartOperation → CaddyStartIntent → Prop where
  | succeeded (i : CaddyStartIntent) (hmode : i.mode ≠ .hostRestore) : Removes (.commitSuccess i) i
  | restored (i : CaddyStartIntent) (id : String) (hmode : i.mode = .hostRestore)
      (hid : i.restoreId = some id) (hphase : i.phase = .candidateStarting) :
      Removes (.completeHostRestore i id) i
  | exhausted (i : CaddyStartIntent) (hmode : i.mode = .ordinary) :
      Removes .clearExhaustedOrdinaryStart i

/-- What one call does. -/
inductive Outcome (op : StartOperation) (s : StartStore) :
    Run StartStore StartupError (Option CaddyStartIntent) → Prop where
  | stopped (e : StartupError) : Outcome op s ⟨[], s, .error e⟩
  | kept (value : Option CaddyStartIntent) (hop : ∀ active id, op ≠ .prepareStart active id) :
      Outcome op s ⟨[], s, .ok value⟩
  | wrote (found : Option CaddyStartIntent) (i : CaddyStartIntent) (raw : Bytes)
      (hread : StartupStore.readIntent json s = .ok found) (hbytes : i.toBytes json = .ok raw)
      (h : Writes op found i) : Outcome op s ⟨[some raw], some raw, .ok (some i)⟩
  | removed (i : CaddyStartIntent) (hread : StartupStore.readIntent json s = .ok (some i))
      (h : Removes op i) : Outcome op s ⟨[none], none, .ok none⟩

variable {json} {s : StartStore}

namespace StartupStore

theorem check_cases (x : Except StartupError Unit) (s : StartStore) :
    Durable.Stops (check x) s ∨ x = .ok () ∧ Durable.Quiet (check x) s () := by
  rcases Durable.stops_or_quiet (fun _ : StartStore => x) s with h | ⟨_, hx, h⟩
  · exact Or.inl h
  · exact Or.inr ⟨hx, h⟩

theorem requireCurrent_cases (i : CaddyStartIntent) (s : StartStore) :
    Durable.Stops (requireCurrent json i) s ∨
      readIntent json s = .ok (some i) ∧ Durable.Quiet (requireCurrent json i) s i := by
  unfold requireCurrent
  rcases Durable.stops_or_quiet (readIntent json) s with hread | ⟨current, hcurrent, hread⟩
  · exact Or.inl (hread.bind _)
  rcases check_cases (require (decide (current = some i))
    (.startup "Caddy startup intent changed during transition")) s with hcheck | ⟨hsame, hcheck⟩
  · obtain ⟨e, he⟩ := hcheck.bind fun _ => (pure i : Durable StartStore StartupError _)
    exact Or.inl ⟨e, hread.bind.trans he⟩
  · rw [require_eq_ok, decide_eq_true_eq] at hsame
    refine Or.inr ⟨hsame ▸ hcurrent, hread.bind.trans (hcheck.bind.trans ?_)⟩
    rfl

theorem advance_cases (fields : StartFields) (s : StartStore) :
    Durable.Stops (advance json fields) s ∨
      ∃ i raw, i.toStartFields = fields ∧ i.toBytes json = .ok raw ∧
        advance json fields s = ⟨[some raw], some raw, .ok i⟩ := by
  unfold advance write
  rcases Durable.stops_or_quiet (fun _ : StartStore => CaddyStartIntent.make fields) s with
    hmake | ⟨i, hi, hmake⟩
  · exact Or.inl (hmake.bind _)
  rcases Durable.stops_or_quiet (fun _ : StartStore => i.toBytes json) s with
    hraw | ⟨raw, hbytes, hraw⟩
  · obtain ⟨e, he⟩ := (hraw.bind _).bind fun _ => (pure i : Durable StartStore StartupError _)
    exact Or.inl ⟨e, hmake.bind.trans he⟩
  · refine Or.inr ⟨i, raw, CaddyStartIntent.make_eq_ok.1 hi, hbytes, hmake.bind.trans ?_⟩
    have hwrite : (Durable.query (fun _ : StartStore => i.toBytes json) >>= fun raw =>
        Durable.effect fun _ => some raw) s =
          (⟨[some raw], some raw, .ok ()⟩ : Run StartStore StartupError Unit) :=
      hraw.bind.trans (Durable.effect_run _ s)
    exact Durable.bind_ok hwrite

/-! A call that maps the value of its program ends as the program does. -/

theorem stopped_outcome {α : Type} {op : StartOperation} {p : Durable StartStore StartupError α}
    {g : α → Option CaddyStartIntent} (hop : op.perform json = g <$> p) (h : Durable.Stops p s) :
    Outcome json op s (op.perform json s) := by
  obtain ⟨e, he⟩ := h.map g
  rw [hop, he]
  exact .stopped e

theorem kept_outcome {α : Type} {op : StartOperation} {p : Durable StartStore StartupError α}
    {g : α → Option CaddyStartIntent} {a : α} (hop : op.perform json = g <$> p)
    (hother : ∀ active id, op ≠ .prepareStart active id) (h : Durable.Quiet p s a) :
    Outcome json op s (op.perform json s) := by
  rw [hop, Durable.map_run, show p s = ⟨[], s, .ok a⟩ from h]
  exact .kept (g a) hother

theorem advanced_outcome {op : StartOperation}
    {p : Durable StartStore StartupError CaddyStartIntent} {fields : StartFields}
    {found : Option CaddyStartIntent} (hop : op.perform json = some <$> p)
    (hrun : p s = advance json fields s) (hread : readIntent json s = .ok found)
    (h : ∀ i : CaddyStartIntent, i.toStartFields = fields → Writes op found i) :
    Outcome json op s (op.perform json s) := by
  rw [hop, Durable.map_run, hrun]
  rcases advance_cases fields s with ⟨e, he⟩ | ⟨i, raw, hi, hbytes, hadvance⟩
  · rw [he]
    exact .stopped e
  · rw [hadvance]
    exact .wrote found i raw hread hbytes (h i hi)

theorem removed_outcome {α : Type} {op : StartOperation} {p : Durable StartStore StartupError α}
    {a : α} {i : CaddyStartIntent} (hop : op.perform json = (fun _ => none) <$> p)
    (hrun : p s = ⟨[none], none, .ok a⟩) (hread : readIntent json s = .ok (some i))
    (h : Removes op i) : Outcome json op s (op.perform json s) := by
  rw [hop, Durable.map_run, hrun]
  exact .removed i hread h

theorem beginTransaction_outcome (candidate previous : CaddyStartTarget) :
    Outcome json (.beginTransaction candidate previous) s
      ((StartOperation.beginTransaction candidate previous).perform json s) := by
  rcases Durable.stops_or_quiet (readIntent json) s with hstop | ⟨found, hread, hquiet⟩
  · exact stopped_outcome rfl (hstop.bind _)
  rcases check_cases (require found.isNone (.startup "another Caddy startup intent is active")) s
    with ⟨e, he⟩ | ⟨hnone, hcheck⟩
  · exact stopped_outcome rfl ⟨e, hquiet.bind.trans (Durable.bind_error he)⟩
  · rw [require_eq_ok, Option.isNone_iff_eq_none] at hnone
    subst hnone
    refine advanced_outcome rfl (hquiet.bind.trans hcheck.bind) hread fun i hi => ?_
    exact .begun _ i (fun _ _ => by simp) ⟨by rw [hi], by rw [hi]⟩

theorem markRestartRequired_outcome (i : CaddyStartIntent) :
    Outcome json (.markRestartRequired i) s
      ((StartOperation.markRestartRequired i).perform json s) := by
  rcases requireCurrent_cases i s with hstop | ⟨hread, hquiet⟩
  · exact stopped_outcome rfl (hstop.bind _)
  rcases check_cases (require (decide (i.phase = .candidatePrepared))
    (.startup "candidate is not awaiting selection")) s with ⟨e, he⟩ | ⟨-, hcheck⟩
  · exact stopped_outcome rfl ⟨e, hquiet.bind.trans (Durable.bind_error he)⟩
  · refine advanced_outcome rfl (hquiet.bind.trans hcheck.bind) hread fun j hj => ?_
    exact .marked _ i j (fun _ _ => by simp)
      ⟨by rw [hj], by rw [hj], by rw [hj], by rw [hj]⟩ (by rw [hj]) (by rw [hj])

theorem beginHostRestore_outcome (candidate : CaddyStartTarget) (restoreId : String) :
    Outcome json (.beginHostRestore candidate restoreId) s
      ((StartOperation.beginHostRestore candidate restoreId).perform json s) := by
  rcases check_cases (validateUuid7 (some restoreId)) s with ⟨e, he⟩ | ⟨-, hvalid⟩
  · exact stopped_outcome rfl ⟨e, Durable.bind_error he⟩
  rcases Durable.stops_or_quiet (readIntent json) s with ⟨e, he⟩ | ⟨found, hread, hquiet⟩
  · exact stopped_outcome rfl ⟨e, hvalid.bind.trans (Durable.bind_error he)⟩
  cases found with
  | none =>
      refine advanced_outcome rfl (hvalid.bind.trans hquiet.bind) hread fun i hi => ?_
      exact .begun _ i (fun _ _ => by simp) ⟨by rw [hi], by rw [hi]⟩
  | some intent =>
      rcases check_cases (require (decide (intent.mode = .hostRestore) &&
          decide (intent.restoreId = some restoreId) && decide (intent.candidate = candidate))
        (.startup "another Caddy startup intent is active")) s with ⟨e, he⟩ | ⟨-, hcheck⟩
      · exact stopped_outcome rfl
          ⟨e, hvalid.bind.trans (hquiet.bind.trans (Durable.bind_error he))⟩
      · exact kept_outcome (a := intent) rfl (fun _ _ => by simp)
          (hvalid.bind.trans (hquiet.bind.trans hcheck.bind))

theorem candidateAttempt_writes {id : String} {i j : CaddyStartIntent}
    (htarget : i.selectedTarget = i.candidate)
    (h : candidateAttempt id i = .ok j.toStartFields) :
    Writes (.prepareStart i.selectedTarget id) (some i) j := by
  unfold candidateAttempt at h
  split at h
  · exact nomatch h
  · have hj := (Except.ok.inj h).symm
    have hcandidate : j.candidate = i.candidate := by rw [hj]
    have hselected : j.selectedTarget = j.candidate := by
      unfold CaddyStartIntent.selectedTarget
      rw [hj]
      by_cases hmode : i.mode = .ordinary
      · rw [if_pos hmode]
      · rw [if_neg hmode]
    exact .attempted _ id i j ⟨by rw [hj], hcandidate, by rw [hj], by rw [hj]⟩
      (hselected.trans (hcandidate.trans htarget.symm)) hselected (by rw [hj]) (by rw [hj])

theorem recoveryAttempt_writes {id : String} {i j : CaddyStartIntent}
    (htarget : i.selectedTarget = i.previous.getD i.candidate)
    (h : recoveryAttempt id i = .ok j.toStartFields) :
    Writes (.prepareStart i.selectedTarget id) (some i) j := by
  unfold recoveryAttempt at h
  split at h
  · exact nomatch h
  · have hj := (Except.ok.inj h).symm
    have hphase : j.phase = .recoveryStarting := by rw [hj]
    refine .recovered _ id i j ⟨by rw [hj], by rw [hj], by rw [hj], by rw [hj]⟩ ?_
      (selectedTarget_ne hphase) (by rw [hj]) (by rw [hj])
    rw [htarget, CaddyStartIntent.selectedTarget, hj]

/-- The fields of a granted attempt. -/
theorem nextAttempt_writes {active : CaddyStartTarget} {id : String}
    {found : Option CaddyStartIntent} {j : CaddyStartIntent}
    (h : nextAttempt active id found = .ok j.toStartFields) :
    Writes (.prepareStart active id) found j := by
  cases found with
  | none =>
      have hj := (Except.ok.inj h).symm
      have hselected : j.selectedTarget = j.candidate := by
        unfold CaddyStartIntent.selectedTarget
        rw [hj]
      refine .started active id j (hselected.trans ?_) hselected (by rw [hj]) (by rw [hj])
      rw [hj]
  | some i =>
      by_cases htarget : i.selectedTarget = active
      · rw [nextAttempt, if_neg (not_not_intro htarget)] at h
        subst htarget
        cases hphase : i.phase with
        | restartRequired | candidateStarting | ordinaryStarting =>
            rw [hphase] at h
            exact candidateAttempt_writes (by rw [CaddyStartIntent.selectedTarget, hphase]) h
        | rollbackRestartRequired | recoveryStarting =>
            rw [hphase] at h
            exact recoveryAttempt_writes (by rw [CaddyStartIntent.selectedTarget, hphase]) h
        | candidatePrepared =>
            rw [hphase] at h
            exact nomatch h
      · rw [nextAttempt, if_pos htarget] at h
        exact nomatch h

theorem prepareStart_outcome (active : CaddyStartTarget) (id : String) :
    Outcome json (.prepareStart active id) s
      ((StartOperation.prepareStart active id).perform json s) := by
  rcases check_cases (require (isInvocationId id)
    (.startup "systemd invocation ID is invalid")) s with ⟨e, he⟩ | ⟨-, hvalid⟩
  · exact stopped_outcome rfl ⟨e, Durable.bind_error he⟩
  rcases Durable.stops_or_quiet (readIntent json) s with ⟨e, he⟩ | ⟨found, hread, hquiet⟩
  · exact stopped_outcome rfl ⟨e, hvalid.bind.trans (Durable.bind_error he)⟩
  rcases Durable.stops_or_quiet (fun _ : StartStore => nextAttempt active id found) s with
    ⟨e, he⟩ | ⟨fields, hfields, hnext⟩
  · exact stopped_outcome rfl ⟨e, hvalid.bind.trans (hquiet.bind.trans (Durable.bind_error he))⟩
  · refine advanced_outcome rfl (hvalid.bind.trans (hquiet.bind.trans hnext.bind)) hread
      fun j hj => ?_
    exact nextAttempt_writes (hj ▸ hfields)

theorem requireMatchingSuccess_outcome (active : CaddyStartTarget) (id : String) :
    Outcome json (.requireMatchingSuccess active id) s
      ((StartOperation.requireMatchingSuccess active id).perform json s) := by
  rcases Durable.stops_or_quiet (readIntent json) s with hstop | ⟨found, -, hquiet⟩
  · exact stopped_outcome rfl (hstop.bind _)
  cases found with
  | none => exact stopped_outcome rfl ⟨_, hquiet.bind.trans rfl⟩
  | some i =>
      rcases check_cases (require (decide (i.invocationId = some id) &&
          decide (i.selectedTarget = active) &&
          decide (i.phase ∈
            [CaddyStartPhase.ordinaryStarting, .candidateStarting, .recoveryStarting]))
        (.startup "post-start callback is stale or mismatched")) s with ⟨e, he⟩ | ⟨-, hcheck⟩
      · exact stopped_outcome rfl ⟨e, hquiet.bind.trans (Durable.bind_error he)⟩
      · exact kept_outcome (a := i) rfl (fun _ _ => by simp) (hquiet.bind.trans hcheck.bind)

theorem commitSuccess_outcome (i : CaddyStartIntent) :
    Outcome json (.commitSuccess i) s ((StartOperation.commitSuccess i).perform json s) := by
  rcases requireCurrent_cases i s with hstop | ⟨hread, hquiet⟩
  · exact stopped_outcome rfl (hstop.bind _)
  by_cases hmode : i.mode = .hostRestore
  · refine kept_outcome (a := ()) rfl (fun _ _ => by simp) (hquiet.bind.trans ?_)
    rw [decide_eq_false (not_not_intro hmode)]
    rfl
  · refine removed_outcome (a := ()) rfl (hquiet.bind.trans ?_) hread (.succeeded i hmode)
    rw [decide_eq_true hmode]
    rfl

theorem completeHostRestore_outcome (i : CaddyStartIntent) (id : String) :
    Outcome json (.completeHostRestore i id) s
      ((StartOperation.completeHostRestore i id).perform json s) := by
  rcases requireCurrent_cases i s with hstop | ⟨hread, hquiet⟩
  · exact stopped_outcome rfl (hstop.bind _)
  rcases check_cases (require (decide (i.mode = .hostRestore))
    (.startup "host restore completion is mismatched")) s with ⟨e, he⟩ | ⟨hmode, hcheck⟩
  · exact stopped_outcome rfl ⟨e, hquiet.bind.trans (Durable.bind_error he)⟩
  rcases check_cases (validateUuid7 (some id)) s with ⟨e, he⟩ | ⟨-, hvalid⟩
  · exact stopped_outcome rfl ⟨e, hquiet.bind.trans (hcheck.bind.trans (Durable.bind_error he))⟩
  rcases check_cases (require (decide (i.restoreId = some id) &&
      decide (i.phase = .candidateStarting))
    (.startup "host restore completion is mismatched")) s with ⟨e, he⟩ | ⟨hmatches, hcheck'⟩
  · exact stopped_outcome rfl
      ⟨e, hquiet.bind.trans (hcheck.bind.trans (hvalid.bind.trans (Durable.bind_error he)))⟩
  · rw [require_eq_ok, decide_eq_true_eq] at hmode
    simp only [require_eq_ok, Bool.and_eq_true, decide_eq_true_eq] at hmatches
    exact removed_outcome rfl
      (hquiet.bind.trans (hcheck.bind.trans (hvalid.bind.trans hcheck'.bind))) hread
      (.restored i id hmode hmatches.1 hmatches.2)

theorem requireRollbackTarget_outcome :
    Outcome json .requireRollbackTarget s
      (StartOperation.requireRollbackTarget.perform json s) := by
  show Outcome json _ s (requireRollbackTarget json s)
  rcases Durable.stops_or_quiet (readIntent json) s with hstop | ⟨found, -, hquiet⟩
  · have hstops : Durable.Stops (requireRollbackTarget json) s := hstop.bind _
    obtain ⟨e, he⟩ := hstops
    rw [he]
    exact .stopped e
  cases found with
  | none =>
      rw [show requireRollbackTarget json s = ⟨[], s, .ok none⟩ from hquiet.bind]
      exact .kept none fun _ _ => by simp
  | some i =>
      rw [show requireRollbackTarget json s = ⟨[], s, rollbackTarget i⟩ from hquiet.bind]
      cases rollbackTarget i with
      | error e => exact .stopped e
      | ok value => exact .kept value fun _ _ => by simp

theorem clearExhaustedOrdinaryStart_outcome :
    Outcome json .clearExhaustedOrdinaryStart s
      (StartOperation.clearExhaustedOrdinaryStart.perform json s) := by
  rcases Durable.stops_or_quiet (readIntent json) s with hstop | ⟨found, hread, hquiet⟩
  · exact stopped_outcome rfl (hstop.bind _)
  cases hexhausted : found.any ordinaryExhausted with
  | false =>
      refine kept_outcome (a := false) rfl (fun _ _ => by simp) (hquiet.bind.trans ?_)
      rw [hexhausted]
      rfl
  | true =>
      obtain ⟨i, rfl, hi⟩ := (Option.any_eq_true _ _).1 hexhausted
      simp only [ordinaryExhausted, Bool.and_eq_true, decide_eq_true_eq] at hi
      refine removed_outcome (a := true) rfl (hquiet.bind.trans ?_) hread (.exhausted i hi.1.1)
      rw [hexhausted]
      rfl

theorem markRollbackRestartRequired_outcome (i : CaddyStartIntent) :
    Outcome json (.markRollbackRestartRequired i) s
      ((StartOperation.markRollbackRestartRequired i).perform json s) := by
  rcases requireCurrent_cases i s with hstop | ⟨hread, hquiet⟩
  · exact stopped_outcome rfl (hstop.bind _)
  rcases check_cases (require (decide (i.mode = .transactional))
    (.startup "startup has no rollback authority")) s with ⟨e, he⟩ | ⟨-, hcheck⟩
  · exact stopped_outcome rfl ⟨e, hquiet.bind.trans (Durable.bind_error he)⟩
  by_cases hphase : i.phase = .rollbackRestartRequired
  · refine kept_outcome (a := i) rfl (fun _ _ => by simp)
      (hquiet.bind.trans (hcheck.bind.trans ?_))
    rw [if_pos hphase]
    rfl
  rcases check_cases (require (decide (i.phase = .candidateStarting) &&
      decide (i.candidateInvocations.length = maxCaddyStartAttempts))
    (.startup "candidate failure is not eligible for rollback")) s with ⟨e, he⟩ | ⟨-, hcheck'⟩
  · refine stopped_outcome rfl ⟨e, hquiet.bind.trans (hcheck.bind.trans ?_)⟩
    rw [if_neg hphase]
    exact Durable.bind_error he
  · have hrun : markRollbackRestartRequired json i s =
        advance json { i.toStartFields with
          phase := .rollbackRestartRequired
          invocationId := none } s := by
      refine hquiet.bind.trans (hcheck.bind.trans ?_)
      rw [if_neg hphase]
      exact hcheck'.bind
    refine advanced_outcome rfl hrun hread fun j hj => ?_
    exact .marked _ i j (fun _ _ => by simp)
      ⟨by rw [hj], by rw [hj], by rw [hj], by rw [hj]⟩ (by rw [hj]) (by rw [hj])

end StartupStore

open StartupStore in
/-- What a call does. -/
theorem perform_outcome (op : StartOperation) (s : StartStore) :
    Outcome json op s (op.perform json s) := by
  cases op with
  | beginTransaction candidate previous => exact beginTransaction_outcome candidate previous
  | markRestartRequired i => exact markRestartRequired_outcome i
  | beginHostRestore candidate restoreId => exact beginHostRestore_outcome candidate restoreId
  | prepareStart active id => exact prepareStart_outcome active id
  | requireMatchingSuccess active id => exact requireMatchingSuccess_outcome active id
  | commitSuccess i => exact commitSuccess_outcome i
  | completeHostRestore i id => exact completeHostRestore_outcome i id
  | requireRollbackTarget => exact requireRollbackTarget_outcome
  | clearExhaustedOrdinaryStart => exact clearExhaustedOrdinaryStart_outcome
  | markRollbackRestartRequired i => exact markRollbackRestartRequired_outcome i

end Outcomes

/-! ## Runs -/

/-- The store together with the starts granted since its file was last absent: the attempts to start
the candidate and those to start the previous generation, oldest first. -/
structure Startups where
  store : StartStore
  candidateStarts : List String
  previousStarts : List String

namespace Startups

variable (json : JsonText)

/-- No file, and nothing granted. -/
def absent : Startups := ⟨none, [], []⟩

/-- Record a granted start. -/
def grant (t : Startups) (op : StartOperation)
    (result : Except StartupError (Option CaddyStartIntent)) : Startups :=
  match op, result with
  | .prepareStart _ id, .ok (some i) =>
      if i.selectedTarget = i.candidate then
        { t with candidateStarts := t.candidateStarts ++ [id] }
      else { t with previousStarts := t.previousStarts ++ [id] }
  | _, _ => t

/-- One call. A restarted process makes the next call on the same file. -/
def next (t : Startups) (op : StartOperation) : Startups :=
  let run := op.perform json t.store
  match run.state with
  | none => absent
  | some raw => { t with store := some raw }.grant op run.result

/-- Any sequence of calls, with any arguments. -/
def run (calls : List StartOperation) : Startups := calls.foldl (next json) absent

/-- The file is absent, or holds an intent that records exactly the granted starts. -/
inductive Recorded : Startups → Prop where
  | nothing : Recorded absent
  | stored (t : Startups) (i : CaddyStartIntent) (hstores : Stores json t.store i)
      (hcandidate : i.candidateInvocations = t.candidateStarts)
      (hrecovery : i.recoveryInvocations = t.previousStarts) : Recorded t

end Startups

section Runs

variable {json : JsonText}

/-- A stored intent is the one that is read. -/
theorem Stores.readIntent {s : StartStore} {i : CaddyStartIntent} (h : Stores json s i) :
    StartupStore.readIntent json s = .ok (some i) := by
  obtain ⟨raw, rfl, hbytes⟩ := h
  have hsize := ((canonicalBytes_eq_ok json).1 hbytes).2
  show (require (decide (raw.length ≤ maxCaddyStartIntentBytes)) _ >>= fun _ =>
    some <$> decodeCaddyStartIntent json raw) = _
  rw [decide_eq_true hsize, require_true, ok_bind, decode_toBytes json hbytes]
  rfl

theorem grant_other {t : Startups} {op : StartOperation}
    (hop : ∀ active id, op ≠ .prepareStart active id)
    (result : Except StartupError (Option CaddyStartIntent)) : t.grant op result = t := by
  cases op with
  | prepareStart active id => exact absurd rfl (hop active id)
  | _ => rfl

namespace Startups

theorem grant_error (t : Startups) (op : StartOperation) (e : StartupError) :
    t.grant op (.error e) = t := by
  cases op <;> rfl

/-- What a call leaves that changes nothing. -/
theorem Recorded.unchanged {t : Startups} (h : Recorded json t) :
    (match t.store with
      | none => absent
      | some raw => { t with store := some raw }) = t := by
  cases h with
  | nothing => rfl
  | stored _ i hstores hcandidate hrecovery =>
      obtain ⟨raw, hraw, -⟩ := hstores
      obtain ⟨store, candidates, previous⟩ := t
      subst hraw
      rfl

theorem Recorded.found {t : Startups} (h : Recorded json t) {found : Option CaddyStartIntent}
    (hread : StartupStore.readIntent json t.store = .ok found) :
    (found = none ∧ t = absent) ∨
      ∃ i, found = some i ∧ Stores json t.store i ∧ i.candidateInvocations = t.candidateStarts ∧
        i.recoveryInvocations = t.previousStarts := by
  cases h with
  | nothing => exact Or.inl ⟨(Except.ok.inj hread).symm, rfl⟩
  | stored _ i hstores hcandidate hrecovery =>
      rw [hstores.readIntent] at hread
      exact Or.inr ⟨i, (Except.ok.inj hread).symm, hstores, hcandidate, hrecovery⟩

/-- A written intent records the starts granted by then. -/
theorem Recorded.wrote {t : Startups} (h : Recorded json t) {op : StartOperation}
    {found : Option CaddyStartIntent} {i : CaddyStartIntent} {raw : Bytes}
    (hread : StartupStore.readIntent json t.store = .ok found) (hbytes : i.toBytes json = .ok raw)
    (hwrites : Writes op found i) :
    Recorded json ({ t with store := some raw }.grant op (.ok (some i))) := by
  have hstores : Stores json (some raw) i := ⟨raw, rfl, hbytes⟩
  rcases h.found hread with ⟨rfl, rfl⟩ | ⟨j, rfl, -, hcandidate, hrecovery⟩
  · cases hwrites with
    | begun _ _ hop hfresh =>
        rw [grant_other hop]
        exact .stored _ i hstores hfresh.candidate hfresh.recovery
    | started active id _ hactive htarget hcandidate hrecovery =>
        rw [grant, if_pos htarget]
        exact .stored _ i hstores hcandidate hrecovery
  · cases hwrites with
    | marked _ _ _ hop hsame hcandidate' hrecovery' =>
        rw [grant_other hop]
        exact .stored _ i hstores (hcandidate'.trans hcandidate) (hrecovery'.trans hrecovery)
    | attempted active id _ _ hsame hactive htarget hcandidate' hrecovery' =>
        rw [grant, if_pos htarget]
        exact .stored _ i hstores (hcandidate'.trans (by rw [hcandidate]))
          (hrecovery'.trans hrecovery)
    | recovered active id _ _ hsame hactive htarget hcandidate' hrecovery' =>
        rw [grant, if_neg htarget]
        exact .stored _ i hstores (hcandidate'.trans hcandidate)
          (hrecovery'.trans (by rw [hrecovery]))

/-- One call keeps the record. -/
theorem Recorded.next {t : Startups} (h : Recorded json t) (op : StartOperation) :
    Recorded json (t.next json op) := by
  have houtcome := @perform_outcome json op t.store
  unfold Startups.next
  generalize op.perform json t.store = run at houtcome
  cases houtcome with
  | stopped e =>
      simp only [grant_error]
      rw [h.unchanged]
      exact h
  | kept value hop =>
      simp only [grant_other hop]
      rw [h.unchanged]
      exact h
  | wrote found i raw hread hbytes hwrites => exact h.wrote hread hbytes hwrites
  | removed i hread hremoves => exact .nothing

/-- Every run keeps the record. -/
theorem run_recorded (calls : List StartOperation) : Recorded json (run json calls) := by
  induction calls using List.reverseRecOn with
  | nil => exact .nothing
  | append_singleton calls op ih =>
      rw [run, List.foldl_append]
      exact ih.next op

end Startups

/-! ## What holds of every reached store -/

/-- The bounds that the shapes of intents put on their attempts. -/
structure Bounded (candidates previous : List String) : Prop where
  candidateBound : candidates.length ≤ maxCaddyStartAttempts
  previousBound : previous.length ≤ maxCaddyStartAttempts
  distinct : (candidates ++ previous).Nodup
  exhausted : previous ≠ [] → candidates.length = maxCaddyStartAttempts

theorem bounded_nil : Bounded [] [] :=
  ⟨Nat.zero_le _, Nat.zero_le _, List.nodup_nil, fun h => absurd rfl h⟩

theorem StartFields.Shape.bounded {f : StartFields} (h : f.Shape) :
    f.candidateInvocations.length ≤ maxCaddyStartAttempts ∧
      f.recoveryInvocations.length ≤ maxCaddyStartAttempts ∧
      (f.recoveryInvocations ≠ [] → f.candidateInvocations.length = maxCaddyStartAttempts) := by
  cases h with
  | restorePrepared _ _ _ _ _ _ hnone | prepared _ _ _ _ _ _ hnone =>
      rw [hnone.candidate, hnone.recovery]
      exact ⟨Nat.zero_le _, Nat.zero_le _, fun h => absurd rfl h⟩
  | restoreStarting _ _ _ _ _ _ hattempted hrecovery
  | ordinary _ _ _ _ hattempted hrecovery
  | candidateStarting _ _ _ _ _ _ hattempted hrecovery =>
      rw [hrecovery]
      exact ⟨hattempted.bounded, Nat.zero_le _, fun h => absurd rfl h⟩
  | rollbackRequired _ _ _ _ _ _ hexhausted hrecovery =>
      rw [hrecovery]
      exact ⟨hexhausted.le, Nat.zero_le _, fun h => absurd rfl h⟩
  | recoveryStarting _ _ _ _ _ _ hexhausted hattempted =>
      exact ⟨hexhausted.le, hattempted.bounded, fun _ => hexhausted⟩

theorem CaddyStartIntent.bounded (i : CaddyStartIntent) :
    Bounded i.candidateInvocations i.recoveryInvocations := by
  have hvalid := StartFields.valid_of_postInit i.checked
  obtain ⟨hcandidates, hprevious, hexhausted⟩ := hvalid.shape.bounded
  exact ⟨hcandidates, hprevious, hvalid.distinct, hexhausted⟩

/-- A starting intent's invocation is the latest attempt of its phase. -/
theorem StartFields.Shape.latest {f : StartFields} (h : f.Shape)
    (hstarting : f.phase ∈
      [CaddyStartPhase.ordinaryStarting, .candidateStarting, .recoveryStarting]) :
    f.invocationId = (if f.phase = .recoveryStarting then f.recoveryInvocations
      else f.candidateInvocations).getLast? := by
  cases h with
  | restorePrepared _ _ _ _ _ hphase | prepared _ _ _ _ _ hphase =>
      rcases hphase with hphase | hphase <;> rw [hphase] at hstarting <;> simp at hstarting
  | rollbackRequired _ _ _ _ _ hphase =>
      rw [hphase] at hstarting
      simp at hstarting
  | restoreStarting _ _ _ _ _ hphase hattempted | ordinary _ _ _ hphase hattempted
  | candidateStarting _ _ _ _ _ hphase hattempted =>
      rw [if_neg (by rw [hphase]; decide)]
      exact hattempted.latest
  | recoveryStarting _ _ _ _ _ hphase _ hattempted =>
      rw [if_pos hphase]
      exact hattempted.latest

theorem Startups.Recorded.bounded {t : Startups} (h : t.Recorded json) :
    Bounded t.candidateStarts t.previousStarts := by
  cases h with
  | nothing => exact bounded_nil
  | stored _ i _ hcandidate hrecovery =>
      rw [← hcandidate, ← hrecovery]
      exact i.bounded

/-- A granted start was written, as the last attempt of its list. -/
theorem prepareStart_granted {t : Startups} (h : t.Recorded json) {active : CaddyStartTarget}
    {id : String} {i : CaddyStartIntent}
    (hgranted : (StartupStore.prepareStart json active id t.store).result = .ok i) :
    i.selectedTarget = active ∧
      ((i.selectedTarget = i.candidate ∧
          i.candidateInvocations = t.candidateStarts ++ [id] ∧
          i.recoveryInvocations = t.previousStarts) ∨
        (i.selectedTarget ≠ i.candidate ∧ i.candidateInvocations = t.candidateStarts ∧
          i.recoveryInvocations = t.previousStarts ++ [id])) := by
  have hrun : ((StartOperation.prepareStart active id).perform json t.store).result =
      .ok (some i) := by
    show ((some <$> StartupStore.prepareStart json active id) t.store).result = _
    rw [Durable.map_run, hgranted]
    rfl
  have houtcome := @perform_outcome json (.prepareStart active id) t.store
  generalize (StartOperation.prepareStart active id).perform json t.store = run at hrun houtcome
  cases houtcome with
  | stopped e => cases hrun
  | kept value hop => exact absurd rfl (hop active id)
  | removed j hread hremoves => cases hremoves
  | wrote found j raw hread hbytes hwrites =>
      obtain rfl : j = i := Option.some.inj (Except.ok.inj hrun)
      rcases h.found hread with ⟨rfl, rfl⟩ | ⟨k, rfl, -, hcandidate, hrecovery⟩
      · cases hwrites with
        | begun _ _ hop => exact absurd rfl (hop active id)
        | started _ _ _ hactive htarget hcandidate hrecovery =>
            exact ⟨hactive, Or.inl ⟨htarget, hcandidate, hrecovery⟩⟩
      · cases hwrites with
        | marked _ _ _ hop => exact absurd rfl (hop active id)
        | attempted _ _ _ _ hsame hactive htarget hcandidate' hrecovery' =>
            exact ⟨hactive, Or.inl ⟨htarget, hcandidate'.trans (by rw [hcandidate]),
              hrecovery'.trans hrecovery⟩⟩
        | recovered _ _ _ _ hsame hactive htarget hcandidate' hrecovery' =>
            exact ⟨hactive, Or.inr ⟨htarget, hcandidate'.trans hcandidate,
              hrecovery'.trans (by rw [hrecovery])⟩⟩

/-- The id of a granted start is new. -/
theorem prepareStart_new {t : Startups} (h : t.Recorded json) {active : CaddyStartTarget}
    {id : String} {i : CaddyStartIntent}
    (hgranted : (StartupStore.prepareStart json active id t.store).result = .ok i) :
    id ∉ t.candidateStarts ++ t.previousStarts := by
  have hdistinct := i.bounded.distinct
  obtain ⟨-, ⟨-, hcandidate, hrecovery⟩ | ⟨-, hcandidate, hrecovery⟩⟩ :=
    prepareStart_granted h hgranted
  · rw [hcandidate, hrecovery, List.append_assoc, List.singleton_append] at hdistinct
    exact (List.nodup_middle.1 hdistinct).notMem
  · rw [hcandidate, hrecovery, ← List.append_assoc] at hdistinct
    intro hmem
    exact List.disjoint_of_nodup_append hdistinct hmem (List.mem_singleton_self id)

/-- What is claimed of a reached store and of the next call on it. -/
structure StartMachine (json : JsonText) (t : Startups) : Prop where
  /-- The file is absent or holds an intent that is read back and records the granted starts. -/
  recorded : t = Startups.absent ∨ ∃ i, Stores json t.store i ∧
    StartupStore.readIntent json t.store = .ok (some i) ∧
    i.candidateInvocations = t.candidateStarts ∧ i.recoveryInvocations = t.previousStarts
  /-- At most three distinct attempts of each kind; the previous generation is attempted only when
  the candidate has been attempted three times. -/
  bounded : Bounded t.candidateStarts t.previousStarts
  /-- A call that raises has changed nothing. -/
  raising : ∀ (op : StartOperation) (e : StartupError), (op.perform json t.store).result = .error e →
    (op.perform json t.store).trace = [] ∧ (op.perform json t.store).state = t.store
  /-- Whatever a call leaves in the file is read back as the intent it was written for. -/
  storing : ∀ (op : StartOperation) (raw : Bytes), (op.perform json t.store).state = some raw →
    ∃ i, i.toBytes json = .ok raw ∧ decodeCaddyStartIntent json raw = .ok i
  /-- A start of the previous generation is granted only after exactly three candidate attempts. -/
  fallback : ∀ active id i, (StartupStore.prepareStart json active id t.store).result = .ok i →
    active ≠ i.candidate →
      i.previous = some active ∧ t.candidateStarts.length = maxCaddyStartAttempts
  /-- Success is accepted only for the latest start that was granted for the current mode. -/
  success : ∀ active id i,
    (StartupStore.requireMatchingSuccess json active id t.store).result = .ok i →
      (if i.phase = .recoveryStarting then t.previousStarts else t.candidateStarts).getLast? =
        some id
  /-- A recorded id is refused and leaves the file as it is. -/
  repeated : ∀ active id, id ∈ t.candidateStarts ++ t.previousStarts →
    ∃ e, StartupStore.prepareStart json active id t.store = ⟨[], t.store, .error e⟩
  /-- Only the completion of its restore takes a host-restore intent away. -/
  restore : ∀ i, Stores json t.store i → i.mode = .hostRestore → ∀ op : StartOperation,
    (∃ j, Stores json (op.perform json t.store).state j ∧ SameOperation i j) ∨
      ∃ id, op = .completeHostRestore i id ∧ i.restoreId = some id

theorem selectedTarget_eq (i : CaddyStartIntent) :
    i.selectedTarget = i.candidate ∨ i.previous = some i.selectedTarget := by
  unfold CaddyStartIntent.selectedTarget
  cases i.phase with
  | rollbackRestartRequired | recoveryStarting =>
      cases i.previous with
      | none => exact Or.inl rfl
      | some target => exact Or.inr rfl
  | candidatePrepared | restartRequired | ordinaryStarting | candidateStarting =>
      exact Or.inl rfl

theorem requireMatchingSuccess_ok {store : StartStore} {active : CaddyStartTarget} {id : String}
    {i : CaddyStartIntent}
    (h : (StartupStore.requireMatchingSuccess json active id store).result = .ok i) :
    StartupStore.readIntent json store = .ok (some i) ∧ i.invocationId = some id ∧
      i.phase ∈ [CaddyStartPhase.ordinaryStarting, .candidateStarting, .recoveryStarting] := by
  obtain ⟨found, hread, h⟩ := Durable.query_bind_result_ok h
  cases found with
  | none => cases h
  | some j =>
      obtain ⟨_, hcheck, h⟩ := Durable.query_bind_result_ok h
      obtain rfl : j = i := Except.ok.inj h
      simp only [require_eq_ok, Bool.and_eq_true, decide_eq_true_eq] at hcheck
      exact ⟨hread, hcheck.1.1, hcheck.2⟩

namespace Startups.Recorded

variable {t : Startups}

theorem raising (op : StartOperation) {e : StartupError}
    (he : (op.perform json t.store).result = .error e) :
    (op.perform json t.store).trace = [] ∧ (op.perform json t.store).state = t.store := by
  have houtcome := @perform_outcome json op t.store
  generalize op.perform json t.store = run at he houtcome
  cases houtcome with
  | stopped => exact ⟨rfl, rfl⟩
  | kept | wrote | removed => cases he

theorem storing (h : t.Recorded json) (op : StartOperation) {raw : Bytes}
    (hraw : (op.perform json t.store).state = some raw) :
    ∃ i, i.toBytes json = .ok raw ∧ decodeCaddyStartIntent json raw = .ok i := by
  have hkept : t.store = some raw →
      ∃ i, i.toBytes json = .ok raw ∧ decodeCaddyStartIntent json raw = .ok i := by
    intro hstore
    cases h with
    | nothing => cases hstore
    | stored _ i hstores =>
        obtain ⟨raw', hraw', hbytes⟩ := hstores
        obtain rfl : raw' = raw := Option.some.inj (hraw'.symm.trans hstore)
        exact ⟨i, hbytes, decode_toBytes json hbytes⟩
  have houtcome := @perform_outcome json op t.store
  generalize op.perform json t.store = run at hraw houtcome
  cases houtcome with
  | stopped | kept => exact hkept hraw
  | wrote found i raw' hread hbytes =>
      obtain rfl : raw' = raw := Option.some.inj hraw
      exact ⟨i, hbytes, decode_toBytes json hbytes⟩
  | removed => cases hraw

theorem fallback (h : t.Recorded json) {active : CaddyStartTarget} {id : String}
    {i : CaddyStartIntent}
    (hgranted : (StartupStore.prepareStart json active id t.store).result = .ok i)
    (hne : active ≠ i.candidate) :
    i.previous = some active ∧ t.candidateStarts.length = maxCaddyStartAttempts := by
  obtain ⟨rfl, ⟨htarget, -⟩ | ⟨-, hcandidate, hrecovery⟩⟩ := prepareStart_granted h hgranted
  · exact absurd htarget hne
  · refine ⟨(selectedTarget_eq i).resolve_left hne, ?_⟩
    rw [← hcandidate]
    exact i.bounded.exhausted (by rw [hrecovery]; simp)

theorem success (h : t.Recorded json) {active : CaddyStartTarget} {id : String}
    {i : CaddyStartIntent}
    (hok : (StartupStore.requireMatchingSuccess json active id t.store).result = .ok i) :
    (if i.phase = .recoveryStarting then t.previousStarts else t.candidateStarts).getLast? =
      some id := by
  obtain ⟨hread, hid, hphase⟩ := requireMatchingSuccess_ok hok
  rcases h.found hread with ⟨hnone, -⟩ | ⟨j, hj, -, hcandidate, hrecovery⟩
  · cases hnone
  · obtain rfl : i = j := Option.some.inj hj
    rw [← hcandidate, ← hrecovery, ← hid]
    exact ((StartFields.valid_of_postInit i.checked).shape.latest hphase).symm

theorem repeated (h : t.Recorded json) (active : CaddyStartTarget) {id : String}
    (hid : id ∈ t.candidateStarts ++ t.previousStarts) :
    ∃ e, StartupStore.prepareStart json active id t.store = ⟨[], t.store, .error e⟩ := by
  cases hresult : (StartupStore.prepareStart json active id t.store).result with
  | ok i => exact absurd hid (prepareStart_new h hresult)
  | error e =>
      have hmap : (StartOperation.prepareStart active id).perform json t.store = _ :=
        Durable.map_run some (StartupStore.prepareStart json active id) t.store
      have hraising := @raising json t (.prepareStart active id) e
      rw [hmap, hresult] at hraising
      obtain ⟨htrace, hstate⟩ := hraising rfl
      refine ⟨e, ?_⟩
      rw [← htrace, ← hresult]
      exact congrArg (fun s => Run.mk _ s _) hstate

theorem restore {i : CaddyStartIntent} (hstores : Stores json t.store i)
    (hmode : i.mode = .hostRestore) (op : StartOperation) :
    (∃ j, Stores json (op.perform json t.store).state j ∧ SameOperation i j) ∨
      ∃ id, op = .completeHostRestore i id ∧ i.restoreId = some id := by
  have hsame : SameOperation i i := ⟨rfl, rfl, rfl, rfl⟩
  have hfound : ∀ found, StartupStore.readIntent json t.store = .ok found → found = some i := by
    intro found hread
    rw [hstores.readIntent] at hread
    exact (Except.ok.inj hread).symm
  have houtcome := @perform_outcome json op t.store
  generalize op.perform json t.store = run at houtcome
  cases houtcome with
  | stopped | kept => exact Or.inl ⟨i, hstores, hsame⟩
  | wrote found j raw hread hbytes hwrites =>
      obtain rfl := hfound found hread
      refine Or.inl ⟨j, ⟨raw, rfl, hbytes⟩, ?_⟩
      cases hwrites with
      | marked _ _ _ _ hsame | attempted _ _ _ _ hsame | recovered _ _ _ _ hsame => exact hsame
  | removed j hread hremoves =>
      obtain rfl : j = i := Option.some.inj (hfound _ hread)
      cases hremoves with
      | succeeded _ hother => exact absurd hmode hother
      | restored _ id _ hid => exact Or.inr ⟨id, rfl, hid⟩
      | exhausted _ hordinary =>
          rw [hmode] at hordinary
          cases hordinary

end Startups.Recorded

def sampleGeneration : CaddyStartTarget where
  generationId := "01890f3e-7b6a-7cc3-98c4-dc0c0c07398f"
  manifestSha256 := "00000000000000000000000000000000000000000000000000000000000000aa"
  generation_valid := by decide +kernel
  manifest_valid := by decide +kernel

def sampleInvocation (last : Char) : String := String.ofList (List.replicate 31 '0' ++ [last])

/-- Two starts of one generation, the first asked for twice. -/
def sampleStarts : List StartOperation :=
  [.prepareStart sampleGeneration (sampleInvocation 'a'),
    .prepareStart sampleGeneration (sampleInvocation 'a'),
    .prepareStart sampleGeneration (sampleInvocation 'b')]

end Runs

end StaticHostAgent.Caddy
