import StaticHostAgent.Host.Locks

/-!
# The order of the host locks

Every reachable state keeps three invariants: inodes keep their lock name
(`NamesKept`), stacks rise and demands are above them (`Ordered`), and the
kernel's records match the stacks (`KernelKept`). From them: a lock is released
before every lock that was taken after it, the wait-for graph has no cycle, a
blocked call has a holder to wait for, and every wait ends
(`lock_order_rules_out_deadlock`, `waits_end`).
-/

set_option autoImplicit false

namespace StaticHostAgent.Host

open Function LockSystem

section Stack

variable {M : Type}

/-- Each held lock has a higher rank than those taken before it. -/
def RankIncreasing (held : List (HeldLock M)) : Prop :=
  held.Pairwise fun outer inner => outer.name.value < inner.name.value

theorem RankIncreasing.below_last {left : List (HeldLock M)} {last lock : HeldLock M}
    (increasing : RankIncreasing (left ++ [last])) (hmem : lock ∈ left ++ [last]) :
    lock.name.value ≤ last.name.value := by
  rw [List.mem_append] at hmem
  rcases hmem with hmem | hmem
  · have hpair := (List.pairwise_append.mp increasing).2.2 lock hmem last (by simp)
    omega
  · exact Nat.le_of_eq (by rw [List.mem_singleton.mp hmem])

theorem RankIncreasing.push {held : List (HeldLock M)} {lock : HeldLock M}
    (increasing : RankIncreasing held)
    (above : ∀ outer ∈ held, outer.name.value < lock.name.value) :
    RankIncreasing (held ++ [lock]) := by
  refine List.pairwise_append.mpr ⟨increasing, List.pairwise_singleton _ _, ?_⟩
  intro outer hmem inner hinner
  rw [List.mem_singleton.mp hinner]
  exact above outer hmem

variable [DecidableEq M]

omit [DecidableEq M] in
/-- `_assert_next` accepts exactly the names above the whole stack. -/
theorem assertNext_eq_ok {held : List (HeldLock M)} {name : LockName}
    (increasing : RankIncreasing held) :
    assertNext held name = .ok () ↔ ∀ lock ∈ held, lock.name.value < name.value := by
  unfold assertNext
  rcases List.eq_nil_or_concat held with rfl | ⟨left, last, rfl⟩
  · simp
  · simp only [List.concat_eq_append] at increasing ⊢
    have hlast : (left ++ [last]).getLast? = some last := by simp
    rw [hlast]
    constructor
    · intro h lock hmem
      split at h
      · nomatch h
      · simp only at h
        split at h
        · nomatch h
        · have hle := increasing.below_last hmem
          omega
    · intro h
      have hnone : (left ++ [last]).any (fun lock => decide (lock.name = name)) = false := by
        rw [List.any_eq_false]
        intro lock hmem hname
        have hlt := h lock hmem
        rw [of_decide_eq_true hname] at hlt
        exact Nat.lt_irrefl _ hlt
      have hlt := h last (by simp)
      rw [hnone, if_neg (by simp)]
      exact if_neg (by omega)

/-- A stack entry is popped only from the top. -/
theorem unregister_eq_ok {held left : List (HeldLock M)} {lock : HeldLock M} :
    unregister held lock = .ok left ↔ held = left ++ [lock] := by
  unfold unregister
  rcases List.eq_nil_or_concat held with rfl | ⟨rest, last, rfl⟩
  · simp
  · simp only [List.concat_eq_append, List.getLast?_append, List.getLast?_singleton,
      Option.some_or, List.dropLast_concat]
    by_cases hlast : last = lock
    · simp [hlast]
    · simp [hlast]

/-- `require_held` answers with an entry of the stack. -/
theorem requireHeld_mem {held : List (HeldLock M)} {token : M} {name : LockName}
    {mode : Option LockMode} {inode : Option Nat} {innermost : Bool} {lock : HeldLock M}
    (h : requireHeld held token name mode inode innermost = .ok lock) : lock ∈ held := by
  unfold requireHeld at h
  split at h
  · nomatch h
  · rename_i matching hmatching
    have hmem : matching ∈ held := List.mem_of_find?_eq_some hmatching
    split at h
    · nomatch h
    · split at h
      · nomatch h
      · obtain rfl := Except.ok.inj h
        exact hmem

theorem unwind_append (held : List (HeldLock M)) (entered : List (HeldLock M)) :
    unwind (held ++ entered.reverse) entered = .ok held := by
  induction entered with
  | nil => simp [unwind]
  | cons lock earlier ih =>
      have hpop : unregister (held ++ (lock :: earlier).reverse) lock =
          .ok (held ++ earlier.reverse) := by
        rw [unregister_eq_ok]
        simp
      simp only [unwind, hpop]
      exact ih

theorem acquireEach_failed {attempt : LockRequest → Except LockError (HeldLock M)}
    {error : LockError} (requests : List LockRequest) :
    ∀ (start entered : List (HeldLock M)),
      (acquireEach attempt (start ++ entered.reverse) entered requests).1 = .error error →
        (acquireEach attempt (start ++ entered.reverse) entered requests).2 = start := by
  induction requests with
  | nil =>
      intro start entered h
      simp [acquireEach] at h
  | cons request rest ih =>
      intro start entered h
      unfold acquireEach at h ⊢
      cases hacquired : (do
          assertNext (start ++ entered.reverse) request.name
          attempt request) with
      | ok lock =>
          simp only [hacquired] at h ⊢
          have hgrown : start ++ entered.reverse ++ [lock] = start ++ (lock :: entered).reverse := by
            simp
          rw [hgrown] at h ⊢
          exact ih start (lock :: entered) h
      | error refused =>
          simp only [unwind_append]

/-- A failed `acquire_many` leaves the stack as it found it. -/
theorem acquireMany_failed {attempt : LockRequest → Except LockError (HeldLock M)}
    {held : List (HeldLock M)} {requests : List LockRequest} {error : LockError}
    (h : (acquireMany attempt held requests).1 = .error error) :
    (acquireMany attempt held requests).2 = held := by
  unfold acquireMany at h ⊢
  cases hsequence : assertSequence held requests with
  | error refused => rfl
  | ok _ =>
      simp only [hsequence] at h ⊢
      simpa using acquireEach_failed requests held [] (by simpa using h)

end Stack

section System

variable {T M R : Type} [DecidableEq T] [DecidableEq M] [DecidableEq R]

/-! ## What a step does -/

theorem update_eq_some {κ α : Type} [DecidableEq κ] {f : κ → Option α} {x y : κ} {v : Option α}
    {a : α} (h : update f x v y = some a) :
    (y = x ∧ v = some a) ∨ (y ≠ x ∧ f y = some a) := by
  rcases eq_or_ne y x with rfl | hne
  · rw [update_self] at h
    exact .inl ⟨rfl, h⟩
  · rw [update_of_ne hne] at h
    exact .inr ⟨hne, h⟩

theorem update_keeps {κ α : Type} [DecidableEq κ] {f : κ → Option α} {x y : κ} {v : Option α}
    {a : α} (unused : f x = none) (h : f y = some a) : update f x v y = some a := by
  rcases eq_or_ne y x with rfl | hne
  · rw [unused] at h
    nomatch h
  · rw [update_of_ne hne, h]

namespace LockStep

variable {s s' : LockSystem T M R} {event : LockEvent T M} {t : T} {lock : HeldLock M}

/-- A stack stays, is pushed by `granted`, popped by `released`, or dropped with its
thread. -/
theorem held_cases (step : LockStep s event s') (t : T) :
    s'.held t = s.held t ∨
    (∃ lock, event = .granted t lock ∧ s'.held t = s.held t ++ [lock]) ∨
    (∃ lock, event = .released t lock ∧ s.held t = s'.held t ++ [lock]) ∨
    (event = .terminated t ∧ s'.held t = []) := by
  cases step with
  | grant thread attempt _ _ =>
      rcases eq_or_ne t thread with rfl | hne
      · exact .inr (.inl ⟨_, rfl, by simp⟩)
      · exact .inl (by simp [hne])
  | borrow thread token manager inode description _ _ _ _ _ _ =>
      rcases eq_or_ne t thread with rfl | hne
      · exact .inr (.inl ⟨_, rfl, by simp⟩)
      · exact .inl (by simp [hne])
  | release thread lock left innermost =>
      rcases eq_or_ne t thread with rfl | hne
      · exact .inr (.inr (.inl ⟨lock, rfl, by simpa using unregister_eq_ok.mp innermost⟩))
      · exact .inl (by simp [hne])
  | terminate thread =>
      rcases eq_or_ne t thread with rfl | hne
      · exact .inr (.inr (.inr ⟨rfl, by simp⟩))
      · exact .inl (by simp [hne])
  | _ => exact .inl rfl

theorem held_mem (step : LockStep s event s') (hmem : lock ∈ s'.held t) :
    lock ∈ s.held t ∨ event = .granted t lock := by
  rcases step.held_cases t with h | ⟨pushed, rfl, h⟩ | ⟨popped, _, h⟩ | ⟨_, h⟩
  · exact .inl (h ▸ hmem)
  · rw [h, List.mem_append, List.mem_singleton] at hmem
    rcases hmem with hmem | rfl
    · exact .inl hmem
    · exact .inr rfl
  · exact .inl (h ▸ List.mem_append_left _ hmem)
  · rw [h] at hmem
    nomatch hmem

/-- A demand is an old one or was just made by an `acquire` that passed its checks. -/
theorem pending_cases (step : LockStep s event s') {attempt : Attempt M}
    (h : s'.pending t = some attempt) :
    s.pending t = some attempt ∨
      (event = .requested t attempt.request ∧
        assertNext (s.held t) attempt.request.name = .ok () ∧
        (∃ directory, s.lockFiles directory attempt.request.name = some attempt.inode) ∧
        s.descriptions attempt.descriptor = none ∧
        s'.descriptions = update s.descriptions attempt.descriptor (some ⟨attempt.inode, none⟩)) := by
  cases step with
  | request thread token manager wanted blocking inode description running next opened file
      unused =>
      rcases update_eq_some h with ⟨rfl, hnew⟩ | ⟨_, hold⟩
      · obtain rfl := Option.some.inj hnew
        exact .inr ⟨rfl, next, ⟨_, file⟩, unused, rfl⟩
      · exact .inl hold
  | grant thread granted _ _ =>
      rcases update_eq_some h with ⟨_, h⟩ | ⟨_, h⟩
      · nomatch h
      · exact .inl h
  | fail thread failed _ =>
      rcases update_eq_some h with ⟨_, h⟩ | ⟨_, h⟩
      · nomatch h
      · exact .inl h
  | terminate thread =>
      rcases update_eq_some h with ⟨_, h⟩ | ⟨_, h⟩
      · nomatch h
      · exact .inl h
  | _ => exact .inl h

/-- What is pushed is the entry of a demand that the kernel let through, or a borrowed
export lease. -/
theorem granted_cases (step : LockStep s (.granted t lock) s') :
    (∃ attempt, s.pending t = some attempt ∧ attempt.lock = lock ∧ s.Grantable attempt ∧
      s'.descriptions = update s.descriptions attempt.descriptor
        (some ⟨attempt.inode, some attempt.request.mode⟩)) ∨
    (assertNext (s.held t) lock.name = .ok () ∧ lock.name = .export ∧ lock.mode = .exclusive ∧
      0 < s.lent lock.descriptor ∧ (∃ directory, s.lockFiles directory .export = some lock.inode) ∧
      s.descriptions lock.descriptor = some ⟨lock.inode, some .exclusive⟩ ∧
      s'.descriptions = s.descriptions) := by
  cases step with
  | grant _ attempt waiting free => exact .inl ⟨attempt, waiting, rfl, free, rfl⟩
  | borrow _ token manager inode description running next opened supplied file owned =>
      exact .inr ⟨next, rfl, rfl, supplied, ⟨_, file⟩, owned, rfl⟩

/-- A release pops the innermost entry of its stack and touches no other stack. -/
theorem released_held (step : LockStep s (.released t lock) s') :
    s.held t = s'.held t ++ [lock] ∧ ∀ u, u ≠ t → s'.held u = s.held u := by
  cases step with
  | release _ _ left innermost =>
      refine ⟨by simpa using unregister_eq_ok.mp innermost, ?_⟩
      intro u hne
      exact update_of_ne hne _ _

/-- A call that raises leaves every stack as it was. -/
theorem failed_held (step : LockStep s (.failed t) s') : s'.held = s.held := by
  cases step with
  | refuse _ _ => rfl
  | fail _ _ _ => rfl

theorem granted_pending (step : LockStep s (.granted t lock) s') : s'.pending t = none := by
  cases step with
  | grant _ _ _ _ => exact update_self _ _ _
  | borrow _ _ _ _ _ running _ _ _ _ _ => exact running

/-- A kernel record stays, is made for a demand, granted, or unlocked with its stack entry. -/
theorem descriptions_cases (step : LockStep s event s') (d : Nat) :
    s'.descriptions d = s.descriptions d ∨ s.descriptions d = none ∨
    (∃ t attempt, event = .granted t attempt.lock ∧ s.pending t = some attempt ∧
      s.Grantable attempt ∧ d = attempt.descriptor ∧
      s'.descriptions d = some ⟨attempt.inode, some attempt.request.mode⟩) ∨
    (∃ t lock, event = .released t lock ∧ lock ∈ s.held t ∧ d = lock.descriptor ∧
      lock.name ≠ .export ∧
      s'.descriptions d = (s.descriptions d).map fun file => { file with lock := none }) := by
  cases step with
  | request _ _ _ _ _ _ description _ _ _ _ unused =>
      rcases eq_or_ne d description with rfl | hne
      · exact .inr (.inl unused)
      · exact .inl (update_of_ne hne _ _)
  | grant thread attempt waiting free =>
      rcases eq_or_ne d attempt.descriptor with rfl | hne
      · exact .inr (.inr (.inl ⟨thread, attempt, rfl, waiting, free, rfl, update_self _ _ _⟩))
      · exact .inl (update_of_ne hne _ _)
  | release thread lock left innermost =>
      have hmem : lock ∈ s.held thread := by
        rw [unregister_eq_ok.mp innermost]
        simp
      by_cases hexport : lock.name = .export
      · exact .inl (by simp [unlocked, hexport])
      · rcases eq_or_ne d lock.descriptor with rfl | hne
        · exact .inr (.inr (.inr ⟨thread, lock, rfl, hmem, rfl, hexport,
            by simp [unlocked, hexport]⟩))
        · exact .inl (by simp [unlocked, hexport, hne])
  | _ => exact .inl rfl

/-- What is lent was lent before or is an entry of the lending thread. -/
theorem lent_cases (step : LockStep s event s') {d : Nat} (h : 0 < s'.lent d) :
    0 < s.lent d ∨ ∃ t, event = .lent t ∧ ∃ lock ∈ s.held t, lock.descriptor = d := by
  cases step with
  | lendExport thread token lock required =>
      rcases eq_or_ne d lock.descriptor with rfl | hne
      · exact .inr ⟨thread, rfl, lock, requireHeld_mem required, rfl⟩
      · exact .inl (by simpa [hne] using h)
  | lendBackup thread token manager name inode publication tenantState lock named outer inner
      opened file required =>
      rcases eq_or_ne d lock.descriptor with rfl | hne
      · exact .inr ⟨thread, rfl, lock, requireHeld_mem required, rfl⟩
      · exact .inl (by simpa [hne] using h)
  | duplicate description some_lent =>
      rcases eq_or_ne d description with rfl | hne
      · exact .inl some_lent
      · exact .inl (by simpa [hne] using h)
  | close description some_lent =>
      rcases eq_or_ne d description with rfl | hne
      · exact .inl some_lent
      · exact .inl (by simpa [hne] using h)
  | _ => exact .inl h

/-- Only a grant makes a description referred to that was not. -/
theorem referenced_cases (step : LockStep s event s') {d : Nat} (h : s'.Referenced d) :
    s.Referenced d ∨ ∃ t attempt, event = .granted t attempt.lock ∧
      s.pending t = some attempt ∧ d = attempt.descriptor := by
  rcases h with ⟨t, lock, hmem, rfl⟩ | hlent
  · rcases step.held_mem hmem with hmem | rfl
    · exact .inl (.inl ⟨t, lock, hmem, rfl⟩)
    · rcases step.granted_cases with ⟨attempt, hpending, rfl, _⟩ | ⟨_, _, _, hlent, _⟩
      · exact .inr ⟨t, attempt, rfl, hpending, rfl⟩
      · exact .inl (.inr hlent)
  · rcases step.lent_cases hlent with hlent | ⟨t, _, lock, hmem, rfl⟩
    · exact .inl (.inr hlent)
    · exact .inl (.inl ⟨t, lock, hmem, rfl⟩)

theorem names_kept (step : LockStep s event s') {inode : Nat} {name : LockName}
    (h : s.names inode = some name) : s'.names inode = some name := by
  cases step with
  | create directory made inode absent unused => exact update_keeps unused h
  | _ => exact h

theorem lockFiles_named (step : LockStep s event s')
    (files : ∀ directory name inode, s.lockFiles directory name = some inode →
      s.names inode = some name)
    {directory : R} {name : LockName} {inode : Nat}
    (h : s'.lockFiles directory name = some inode) : s'.names inode = some name := by
  cases step with
  | create d made fresh absent unused =>
      simp only at h ⊢
      rcases eq_or_ne directory d with rfl | hd
      · rw [update_self] at h
        rcases update_eq_some h with ⟨rfl, hnew⟩ | ⟨_, hold⟩
        · obtain rfl := Option.some.inj hnew
          exact update_self _ _ _
        · exact update_keeps unused (files _ _ _ hold)
      · rw [update_of_ne hd] at h
        exact update_keeps unused (files _ _ _ h)
  | unlink d removed =>
      simp only at h
      rcases eq_or_ne directory d with rfl | hd
      · rw [update_self] at h
        rcases update_eq_some h with ⟨_, h⟩ | ⟨_, h⟩
        · nomatch h
        · exact files _ _ _ h
      · rw [update_of_ne hd] at h
        exact files _ _ _ h
  | _ => exact files _ _ _ h

end LockStep

/-! ## Inodes keep their lock name -/

/-- Lock files, held locks and demands know their inode under the name it was made for. -/
structure NamesKept (s : LockSystem T M R) : Prop where
  files : ∀ directory name inode, s.lockFiles directory name = some inode →
    s.names inode = some name
  held : ∀ t, ∀ lock ∈ s.held t, s.names lock.inode = some lock.name
  pending : ∀ t attempt, s.pending t = some attempt →
    s.names attempt.inode = some attempt.request.name

theorem NamesKept.granted {s s' : LockSystem T M R} {t : T} {lock : HeldLock M}
    (kept : NamesKept s) (step : LockStep s (.granted t lock) s') :
    s.names lock.inode = some lock.name := by
  rcases step.granted_cases with ⟨attempt, hpending, rfl, _⟩ | ⟨_, hname, _, _, ⟨d, hfile⟩, _⟩
  · exact kept.pending t attempt hpending
  · rw [hname]
    exact kept.files d _ _ hfile

theorem NamesKept.step {s s' : LockSystem T M R} {event : LockEvent T M}
    (kept : NamesKept s) (step : LockStep s event s') : NamesKept s' := by
  refine ⟨fun _ _ _ h => step.lockFiles_named kept.files h, ?_, ?_⟩
  · intro t lock hmem
    rcases step.held_mem hmem with hmem | rfl
    · exact step.names_kept (kept.held t lock hmem)
    · exact step.names_kept (kept.granted step)
  · intro t attempt h
    rcases step.pending_cases h with h | ⟨_, _, ⟨d, hfile⟩, _⟩
    · exact step.names_kept (kept.pending t attempt h)
    · exact step.names_kept (kept.files d _ _ hfile)

/-! ## Stacks rise -/

/-- Every stack rises in rank, and a thread demands only ranks above its stack. -/
structure Ordered (s : LockSystem T M R) : Prop where
  increasing : ∀ t, RankIncreasing (s.held t)
  above : ∀ t attempt, s.pending t = some attempt →
    ∀ lock ∈ s.held t, lock.name.value < attempt.request.name.value

theorem Ordered.granted {s s' : LockSystem T M R} {t : T} {lock : HeldLock M}
    (ordered : Ordered s) (step : LockStep s (.granted t lock) s') :
    ∀ outer ∈ s.held t, outer.name.value < lock.name.value := by
  rcases step.granted_cases with ⟨attempt, hpending, rfl, _⟩ | ⟨hnext, _⟩
  · exact ordered.above t attempt hpending
  · exact (assertNext_eq_ok (ordered.increasing t)).mp hnext

theorem Ordered.step {s s' : LockSystem T M R} {event : LockEvent T M}
    (ordered : Ordered s) (step : LockStep s event s') : Ordered s' := by
  have hstack : ∀ t, RankIncreasing (s'.held t) := by
    intro t
    rcases step.held_cases t with h | ⟨lock, rfl, h⟩ | ⟨lock, _, h⟩ | ⟨_, h⟩
    · exact h ▸ ordered.increasing t
    · rw [h]
      exact (ordered.increasing t).push (ordered.granted step)
    · have hold := ordered.increasing t
      rw [h] at hold
      exact (List.pairwise_append.mp hold).1
    · rw [h]
      exact List.Pairwise.nil
  refine ⟨hstack, ?_⟩
  intro t attempt h lock hmem
  rcases step.pending_cases h with hpending | ⟨rfl, hnext, _⟩
  · rcases step.held_mem hmem with hmem | rfl
    · exact ordered.above t attempt hpending lock hmem
    · rw [step.granted_pending] at h
      nomatch h
  · rcases step.held_mem hmem with hmem | hevent
    · exact (assertNext_eq_ok (ordered.increasing t)).mp hnext lock hmem
    · nomatch hevent

end System

section Kernel

variable {T M R : Type}

/-! ## The kernel's records match the stacks -/

/-- Every stack entry owns its record, a demand's description is its own and unlocked,
only export leases are shared, and live records on one inode do not conflict. -/
structure KernelKept (s : LockSystem T M R) : Prop where
  held : ∀ t, ∀ lock ∈ s.held t, s.descriptions lock.descriptor = some ⟨lock.inode, some lock.mode⟩
  pending : ∀ t attempt, s.pending t = some attempt →
    s.descriptions attempt.descriptor = some ⟨attempt.inode, none⟩
  pendingOwn : ∀ t attempt u other, s.pending t = some attempt → s.pending u = some other →
    attempt.descriptor = other.descriptor → t = u
  pendingPrivate : ∀ t attempt, s.pending t = some attempt → ¬ 0 < s.lent attempt.descriptor
  lentKnown : ∀ d, 0 < s.lent d → s.descriptions d ≠ none
  unshared : ∀ t lock u other, lock ∈ s.held t → other ∈ s.held u →
    lock.descriptor = other.descriptor → lock.name ≠ .export → t = u
  exclusive : ∀ d d' inode mode mode', s.Referenced d → s.Referenced d' →
    s.descriptions d = some ⟨inode, some mode⟩ → s.descriptions d' = some ⟨inode, some mode'⟩ →
    mode.conflicts mode' = true → d = d'

theorem LockMode.conflicts_symm (a b : LockMode) : a.conflicts b = b.conflicts a := by
  cases a <;> cases b <;> rfl

namespace KernelKept

variable {s s' : LockSystem T M R}

theorem pending_not_held (kept : KernelKept s) {t u : T} {attempt : Attempt M} {lock : HeldLock M}
    (hpending : s.pending t = some attempt) (hmem : lock ∈ s.held u) :
    lock.descriptor ≠ attempt.descriptor := by
  intro heq
  have hheld := kept.held u lock hmem
  rw [heq, kept.pending t attempt hpending] at hheld
  simp at hheld

theorem referenced_known (kept : KernelKept s) {d : Nat} (h : s.Referenced d) :
    s.descriptions d ≠ none := by
  rcases h with ⟨t, lock, hmem, rfl⟩ | hlent
  · rw [kept.held t lock hmem]
    simp
  · exact kept.lentKnown d hlent

/-- Entries of one description are the same entry, or both are export leases. -/
theorem same_entry (kept : KernelKept s) (names : NamesKept s) {t u : T}
    {lock other : HeldLock M} (hlock : lock ∈ s.held t) (hother : other ∈ s.held u)
    (heq : lock.descriptor = other.descriptor) :
    lock.name = other.name ∧ (lock.name = .export ∨ t = u) := by
  have hrecord := kept.held t lock hlock
  rw [heq, kept.held u other hother] at hrecord
  have hinode : other.inode = lock.inode := by
    simpa using congrArg (Option.map OpenFile.inode) hrecord
  have hname : some lock.name = some other.name := by
    rw [← names.held t lock hlock, ← names.held u other hother, hinode]
  refine ⟨Option.some.inj hname, ?_⟩
  by_cases hexport : lock.name = .export
  · exact .inl hexport
  · exact .inr (kept.unshared t lock u other hlock hother heq hexport)

variable [DecidableEq T] [DecidableEq M] [DecidableEq R] {event : LockEvent T M}

theorem known_kept (step : LockStep s event s') {d : Nat} (h : s.descriptions d ≠ none) :
    s'.descriptions d ≠ none := by
  rcases step.descriptions_cases d with heq | hnone | ⟨_, _, _, _, _, _, heq⟩ |
    ⟨_, _, _, _, _, _, heq⟩
  · rw [heq]
    exact h
  · exact absurd hnone h
  · simp [heq]
  · simpa [heq] using h

/-- A record that locks was there before the step or was just granted. -/
theorem record_cases (step : LockStep s event s') {d inode : Nat} {mode : LockMode}
    (h : s'.descriptions d = some ⟨inode, some mode⟩) (hreferenced : s'.Referenced d)
    (kept : KernelKept s) :
    s.descriptions d = some ⟨inode, some mode⟩ ∧ s.Referenced d ∨
    ∃ t attempt, event = .granted t attempt.lock ∧ s.pending t = some attempt ∧
      s.Grantable attempt ∧ d = attempt.descriptor ∧ inode = attempt.inode ∧
      mode = attempt.request.mode := by
  rcases step.descriptions_cases d with heq | hnone | ⟨t, attempt, hevent, hpending, hfree, hd, heq⟩ |
    ⟨_, _, _, _, _, _, heq⟩
  · rw [heq] at h
    rcases step.referenced_cases hreferenced with hold | ⟨t, attempt, _, hpending, rfl⟩
    · exact .inl ⟨h, hold⟩
    · rw [kept.pending t attempt hpending] at h
      simp at h
  · rcases step.referenced_cases hreferenced with hold | ⟨t, attempt, _, hpending, rfl⟩
    · exact absurd hnone (kept.referenced_known hold)
    · rw [kept.pending t attempt hpending] at hnone
      nomatch hnone
  · rw [heq] at h
    simp only [Option.some.injEq, OpenFile.mk.injEq] at h
    exact .inr ⟨t, attempt, hevent, hpending, hfree, hd, h.1.symm, h.2.symm⟩
  · rw [heq, Option.map_eq_some_iff] at h
    obtain ⟨file, _, h⟩ := h
    simp at h

theorem step_held (kept : KernelKept s) (names : NamesKept s) (ordered : Ordered s)
    (step : LockStep s event s') (t : T) (lock : HeldLock M) (hmem : lock ∈ s'.held t) :
    s'.descriptions lock.descriptor = some ⟨lock.inode, some lock.mode⟩ := by
  rcases step.held_mem hmem with hold | rfl
  · have hrecord := kept.held t lock hold
    rcases step.descriptions_cases lock.descriptor with heq | hnone |
      ⟨u, attempt, _, hpending, _, heq, _⟩ | ⟨u, popped, rfl, hpopped, heq, hexport, _⟩
    · rw [heq, hrecord]
    · rw [hrecord] at hnone
      nomatch hnone
    · exact absurd heq (kept.pending_not_held hpending hold)
    · -- only an entry of the same thread could share the popped record, and it is below
      obtain ⟨hname, hsame⟩ := kept.same_entry names hpopped hold heq.symm
      obtain rfl := hsame.resolve_left hexport
      have hrising := ordered.increasing u
      rw [step.released_held.1] at hrising
      have hlt := (List.pairwise_append.mp hrising).2.2 lock hmem popped (by simp)
      rw [hname] at hlt
      exact absurd hlt (Nat.lt_irrefl _)
  · rcases step.granted_cases with ⟨attempt, _, rfl, _, heq⟩ | ⟨_, _, hmode, _, _, hrecord, heq⟩
    · rw [heq]
      exact update_self _ _ _
    · rw [heq, hrecord, hmode]

theorem step_pending (kept : KernelKept s) (step : LockStep s event s') (t : T)
    (attempt : Attempt M) (h : s'.pending t = some attempt) :
    s'.descriptions attempt.descriptor = some ⟨attempt.inode, none⟩ := by
  rcases step.pending_cases h with hold | ⟨_, _, _, _, heq⟩
  · have hrecord := kept.pending t attempt hold
    rcases step.descriptions_cases attempt.descriptor with heq | hnone |
      ⟨u, granted, rfl, hpending, _, heq, _⟩ | ⟨u, popped, rfl, hpopped, heq, _, _⟩
    · rw [heq, hrecord]
    · rw [hrecord] at hnone
      nomatch hnone
    · obtain rfl := kept.pendingOwn t attempt u granted hold hpending heq
      rw [step.granted_pending] at h
      nomatch h
    · exact absurd heq.symm (kept.pending_not_held hold hpopped)
  · rw [heq]
    exact update_self _ _ _

theorem step_pendingOwn (kept : KernelKept s) (step : LockStep s event s') (t : T)
    (attempt : Attempt M) (u : T) (other : Attempt M) (h : s'.pending t = some attempt)
    (h' : s'.pending u = some other) (heq : attempt.descriptor = other.descriptor) : t = u := by
  rcases step.pending_cases h with hold | ⟨hevent, _, _, hunused, _⟩
  · rcases step.pending_cases h' with hold' | ⟨_, _, _, hunused, _⟩
    · exact kept.pendingOwn t attempt u other hold hold' heq
    · rw [← heq, kept.pending t attempt hold] at hunused
      nomatch hunused
  · rcases step.pending_cases h' with hold' | ⟨hevent', _⟩
    · rw [heq, kept.pending u other hold'] at hunused
      nomatch hunused
    · rw [hevent] at hevent'
      simp only [LockEvent.requested.injEq] at hevent'
      exact hevent'.1

theorem step_pendingPrivate (kept : KernelKept s) (step : LockStep s event s') (t : T)
    (attempt : Attempt M) (h : s'.pending t = some attempt) : ¬ 0 < s'.lent attempt.descriptor := by
  intro hlent
  rcases step.pending_cases h with hold | ⟨hevent, _, _, hunused, _⟩
  · rcases step.lent_cases hlent with hlent | ⟨u, _, lock, hmem, heq⟩
    · exact kept.pendingPrivate t attempt hold hlent
    · exact kept.pending_not_held hold hmem heq
  · rcases step.lent_cases hlent with hlent | ⟨u, hevent', _⟩
    · exact kept.lentKnown _ hlent hunused
    · rw [hevent] at hevent'
      nomatch hevent'

theorem step_lentKnown (kept : KernelKept s) (step : LockStep s event s') (d : Nat)
    (h : 0 < s'.lent d) : s'.descriptions d ≠ none := by
  refine known_kept step ?_
  rcases step.lent_cases h with hlent | ⟨t, _, lock, hmem, rfl⟩
  · exact kept.lentKnown d hlent
  · exact kept.referenced_known (.inl ⟨t, lock, hmem, rfl⟩)

theorem step_unshared (kept : KernelKept s) (names : NamesKept s) (step : LockStep s event s')
    (t : T) (lock : HeldLock M) (u : T) (other : HeldLock M) (hlock : lock ∈ s'.held t)
    (hother : other ∈ s'.held u) (heq : lock.descriptor = other.descriptor)
    (hexport : lock.name ≠ .export) : t = u := by
  rcases step.held_mem hlock with hold | rfl
  · rcases step.held_mem hother with hold' | rfl
    · exact kept.unshared t lock u other hold hold' heq hexport
    · rcases step.granted_cases with ⟨attempt, hpending, rfl, _⟩ | ⟨_, hname, _, _, _, hrecord, _⟩
      · exact absurd heq (kept.pending_not_held hpending hold)
      · -- the borrowed record lies on the inode of the entry, so the entry is an export lease
        rw [← heq, kept.held t lock hold] at hrecord
        simp only [Option.some.injEq, OpenFile.mk.injEq] at hrecord
        have hnamed := names.held t lock hold
        rw [hrecord.1, names.granted step, hname] at hnamed
        exact absurd (Option.some.inj hnamed).symm hexport
  · rcases step.held_mem hother with hold' | hevent
    · rcases step.granted_cases with ⟨attempt, hpending, rfl, _⟩ | ⟨_, hname, _⟩
      · exact absurd heq.symm (kept.pending_not_held hpending hold')
      · exact absurd hname hexport
    · simp only [LockEvent.granted.injEq] at hevent
      exact hevent.1

theorem step_exclusive (kept : KernelKept s) (step : LockStep s event s') (d d' inode : Nat)
    (mode mode' : LockMode) (hd : s'.Referenced d) (hd' : s'.Referenced d')
    (h : s'.descriptions d = some ⟨inode, some mode⟩)
    (h' : s'.descriptions d' = some ⟨inode, some mode'⟩)
    (hconflict : mode.conflicts mode' = true) : d = d' := by
  by_contra hne
  rcases record_cases step h hd kept with ⟨hold, hreferenced⟩ |
    ⟨t, attempt, hevent, _, hfree, rfl, rfl, rfl⟩
  · rcases record_cases step h' hd' kept with ⟨hold', hreferenced'⟩ |
      ⟨t, attempt, _, _, hfree, rfl, rfl, rfl⟩
    · exact hne (kept.exclusive d d' inode mode mode' hreferenced hreferenced' hold hold' hconflict)
    · exact hfree d ⟨hne, hreferenced, mode, hold, hconflict⟩
  · rcases record_cases step h' hd' kept with ⟨hold', hreferenced'⟩ |
      ⟨u, other, hevent', _, _, rfl, _, _⟩
    · rw [LockMode.conflicts_symm] at hconflict
      exact hfree d' ⟨fun heq => hne heq.symm, hreferenced', mode', hold', hconflict⟩
    · rw [hevent] at hevent'
      simp only [LockEvent.granted.injEq, Attempt.lock, HeldLock.mk.injEq] at hevent'
      exact hne hevent'.2.2.2.2.2

theorem step (kept : KernelKept s) (names : NamesKept s) (ordered : Ordered s)
    (step : LockStep s event s') : KernelKept s' where
  held := kept.step_held names ordered step
  pending := kept.step_pending step
  pendingOwn := kept.step_pendingOwn step
  pendingPrivate := kept.step_pendingPrivate step
  lentKnown := kept.step_lentKnown step
  unshared := kept.step_unshared names step
  exclusive := kept.step_exclusive step

end KernelKept

/-! ## Every reachable state -/

variable [DecidableEq T] [DecidableEq M] [DecidableEq R] {s s' : LockSystem T M R}

/-- The invariants of the lock system. -/
structure LocksKept (s : LockSystem T M R) : Prop where
  names : NamesKept s
  ordered : Ordered s
  kernel : KernelKept s

omit [DecidableEq T] [DecidableEq M] [DecidableEq R] in
theorem LocksKept.initial : LocksKept (initial : LockSystem T M R) where
  names := ⟨nofun, nofun, nofun⟩
  ordered := ⟨fun _ => List.Pairwise.nil, nofun⟩
  kernel := ⟨nofun, nofun, nofun, nofun, fun _ h => absurd h (Nat.lt_irrefl 0), nofun, nofun⟩

theorem LocksKept.run (kept : LocksKept s) (run : LockRun s s') : LocksKept s' := by
  induction run with
  | refl => exact kept
  | step _ step ih =>
      exact ⟨ih.names.step step, ih.ordered.step step, ih.kernel.step ih.names ih.ordered step⟩

/-! ## Waiting -/

omit [DecidableEq M] in
theorem conflict_of_blockedBy {attempt : Attempt M} {lock : HeldLock M} :
    BlockedBy attempt lock = true ↔ attempt.blocking = true ∧ lock.inode = attempt.inode ∧
      lock.descriptor ≠ attempt.descriptor ∧
      lock.mode.conflicts attempt.request.mode = true := by
  simp [BlockedBy, and_assoc]

omit [DecidableEq T] [DecidableEq M] [DecidableEq R] in
/-- What blocks a demand has its rank, since an inode has one lock name. -/
theorem LocksKept.ranked (kept : LocksKept s) :
    Library.RankedWaiting (fun t attempt => s.pending t = some attempt)
      (fun t lock => lock ∈ s.held t) (fun lock attempt => BlockedBy attempt lock = true)
      (fun attempt => attempt.request.name.value) (fun lock => lock.name.value) where
  above := fun t attempt lock hpending hmem => kept.ordered.above t attempt hpending lock hmem
  level := by
    intro lock attempt t u hmem hpending hblocked
    obtain ⟨_, hinode, _⟩ := conflict_of_blockedBy.mp hblocked
    have hheld := kept.names.held u lock hmem
    rw [hinode, kept.names.pending t attempt hpending] at hheld
    rw [Option.some.inj hheld]

/-- A lock is not released while a lock that its thread took after it is held. -/
theorem LocksKept.last_in_first_out (kept : LocksKept s) {t : T} {early late : HeldLock M}
    {s₁ s₂ s₃ : LockSystem T M R} (hearly : early ∈ s.held t)
    (granted : LockStep s (.granted t late) s₁) (run : LockRun s₁ s₂)
    (released : LockStep s₂ (.released t early) s₃) : late ∉ s₂.held t := by
  intro hlate
  have hlater := kept.ordered.granted granted early hearly
  have kept₂ := (kept.run (.step (.refl s) granted)).run run
  have hrising := kept₂.ordered.increasing t
  rw [released.released_held.1] at hrising hlate
  have hle := hrising.below_last hlate
  omega

/-- In every reachable state the stacks rise, a release pops the last entry and no lock taken
later is still held, a failed call leaves the stacks, and no cycle of threads waits. -/
theorem lock_order_rules_out_deadlock (run : LockRun (initial : LockSystem T M R) s) :
    (∀ t, RankIncreasing (s.held t)) ∧
    (∀ t lock s', LockStep s (.released t lock) s' →
      s.held t = s'.held t ++ [lock] ∧ ∀ u, u ≠ t → s'.held u = s.held u) ∧
    (∀ t early late s₁ s₂ s₃, early ∈ s.held t → LockStep s (.granted t late) s₁ →
      LockRun s₁ s₂ → LockStep s₂ (.released t early) s₃ → late ∉ s₂.held t) ∧
    (∀ t s', LockStep s (.failed t) s' → s'.held = s.held) ∧
    (∀ t attempt requests error, (acquireMany attempt (s.held t) requests).1 = .error error →
      (acquireMany attempt (s.held t) requests).2 = s.held t) ∧
    ∀ t, ¬ Relation.TransGen s.WaitsFor t t := by
  have kept := LocksKept.initial.run run
  refine ⟨kept.ordered.increasing, ?_, ?_, ?_, ?_, kept.ranked.acyclic⟩
  · intro t lock s' step
    exact step.released_held
  · intro t early late s₁ s₂ s₃ hearly granted later released
    exact kept.last_in_first_out hearly granted later released
  · intro t s' step
    exact step.failed_held
  · intro t attempt requests error failed
    exact acquireMany_failed failed

/-- Two threads contend for one export lock: the second waits for the first, and nobody
waits in a circle. -/
theorem contended_export_has_no_cycle :
    ∃ s : LockSystem Nat Nat Unit, LockRun initial s ∧ s.WaitsFor 1 0 ∧
      ∀ t, ¬ Relation.TransGen s.WaitsFor t t := by
  have created := LockRun.step (.refl (initial : LockSystem Nat Nat Unit))
    (.create initial () .export 7 rfl rfl)
  have opened := LockRun.step created (.openManager _ 0 () rfl)
  have first := LockRun.step opened
    (.request _ 0 0 ⟨(), 0⟩ ⟨.export, .exclusive⟩ true 7 1 rfl rfl rfl rfl rfl)
  have holding := LockRun.step first (.grant _ 0 ⟨0, ⟨.export, .exclusive⟩, true, 7, 1⟩ rfl
    (by
      rintro d ⟨_, ⟨t, lock, hmem, _⟩ | hlent, _⟩
      · nomatch hmem
      · exact absurd hlent (Nat.lt_irrefl 0)))
  have second := LockRun.step holding
    (.request _ 1 0 ⟨(), 1⟩ ⟨.export, .exclusive⟩ true 7 2 rfl rfl rfl rfl rfl)
  refine ⟨_, second, ⟨_, _, rfl, List.mem_singleton.mpr rfl, by decide⟩, ?_⟩
  exact (lock_order_rules_out_deadlock second).2.2.2.2.2

end Kernel

end StaticHostAgent.Host
