import StaticHostAgent.Library.OrderedWaiting
import Mathlib.Logic.Function.Basic
import Mathlib.Data.List.Basic

/-!
# Host locks

The lock manager of `locks.py`: the thread-local stack of held locks with its
ordering assertions, and the system of threads, managers, lock files and kernel
`flock` records that run against it. `T` are the threads of every process, `M`
the manager tokens and `R` the lock directories.

An open file description is a number, never used for a second one. A stack
entry owns one descriptor of its own, so the model names the descriptor by the
description that it refers to. An inode number is likewise never used for a second lock
file, which the kernel guarantees while the file is open or linked.
-/

set_option autoImplicit false

namespace StaticHostAgent.Host

/-- Errors of the lock manager. `os` is an error of the operating system or a
failed check of a lock file. -/
inductive LockError where
  | lockOrder (message : String)
  | stateBusy (message : String)
  | runtime (message : String)
  | os
  deriving DecidableEq

/-- The one permitted outer-to-inner lock order. -/
inductive LockName where
  | intake | export | publication | tenantState
  deriving DecidableEq

def LockName.value : LockName → Nat
  | .intake => 0
  | .export => 10
  | .publication => 20
  | .tenantState => 30

def LockName.filename : LockName → String
  | .intake => "intake.lock"
  | .export => "export.lock"
  | .publication => "publication.lock"
  | .tenantState => "tenant-state.lock"

inductive LockMode where
  | shared | exclusive
  deriving DecidableEq

def LockMode.value : LockMode → String
  | .shared => "shared"
  | .exclusive => "exclusive"

/-- Two `flock` records of one inode exclude each other unless both are shared. -/
def LockMode.conflicts : LockMode → LockMode → Bool
  | .shared, .shared => false
  | _, _ => true

structure LockRequest where
  name : LockName
  mode : LockMode
  deriving DecidableEq

/-- One entry of the thread-local stack (`_HeldLock`). -/
structure HeldLock (M : Type) where
  managerToken : M
  name : LockName
  mode : LockMode
  inode : Nat
  descriptor : Nat
  deriving DecidableEq

section Stack

variable {M : Type} [DecidableEq M]

def orderMessage : String := "host locks must follow intake, export, publication, tenant-state"

/-- `_assert_next`: a lock may follow the held ones only above the innermost. -/
def assertNext (held : List (HeldLock M)) (name : LockName) : Except LockError Unit :=
  if held.any (fun lock => decide (lock.name = name)) then
    .error (.lockOrder "a host lock cannot be acquired recursively")
  else
    match held.getLast? with
    | none => .ok ()
    | some last =>
        if name.value ≤ last.name.value then .error (.lockOrder orderMessage) else .ok ()

/-- The loop of `_assert_sequence`, with its two variables. -/
def assertSequenceFrom (previous : Option LockName) (seen : List LockName) :
    List LockRequest → Except LockError Unit
  | [] => .ok ()
  | request :: rest =>
      if request.name ∈ seen ∨ ∃ last ∈ previous, request.name.value ≤ last.value then
        .error (.lockOrder orderMessage)
      else
        assertSequenceFrom (some request.name) (request.name :: seen) rest

/-- `_assert_sequence`: a whole request must rise from the innermost held lock. -/
def assertSequence (held : List (HeldLock M)) (requests : List LockRequest) :
    Except LockError Unit :=
  assertSequenceFrom (held.getLast?.map HeldLock.name) [] requests

/-- The exit of `_registered_lock`: the innermost entry is popped and must be the
one that this context registered. -/
def unregister (held : List (HeldLock M)) (lock : HeldLock M) :
    Except LockError (List (HeldLock M)) :=
  match held.getLast? with
  | none => .error (.runtime "pop from empty list")
  | some last =>
      if last ≠ lock then .error (.runtime "lock stack was corrupted") else .ok held.dropLast

/-- The entry that `require_held` matches. -/
def matchingLock (held : List (HeldLock M)) (token : M) (name : LockName)
    (mode : Option LockMode) : Option (HeldLock M) :=
  held.find? fun lock => lock.managerToken = token ∧ lock.name = name ∧
    ∀ required ∈ mode, lock.mode = required

/-- `require_held`, with the matched entry as its value; `inode` is that of the
descriptor to compare with. -/
def requireHeld (held : List (HeldLock M)) (token : M) (name : LockName)
    (mode : Option LockMode) (inode : Option Nat) (innermost : Bool) :
    Except LockError (HeldLock M) :=
  match matchingLock held token name mode with
  | none =>
      let requirement := match mode with
        | none => ""
        | some mode => " in " ++ mode.value ++ " mode"
      .error (.lockOrder (name.filename ++ " must already be held" ++ requirement))
  | some matching =>
      if innermost = true ∧ held.getLast? ≠ some matching then
        .error (.lockOrder "a remote lease cannot be lent while an inner host lock is held")
      else if ∃ opened ∈ inode, matching.inode ≠ opened then
        .error (.lockOrder (name.filename ++ " held inode does not match"))
      else
        .ok matching

/-- The exit of an `ExitStack`: the contexts are left last-in first-out. -/
def unwind : List (HeldLock M) → List (HeldLock M) → Except LockError (List (HeldLock M))
  | held, [] => .ok held
  | held, lock :: earlier => do
      let held ← unregister held lock
      unwind held earlier

/-- The loop of `acquire_many` over one thread's stack. `attempt` is what opening and
locking the file yields; `entered` are the contexts entered so far, the last one first.
The second component is the stack that the call leaves. -/
def acquireEach (attempt : LockRequest → Except LockError (HeldLock M)) :
    List (HeldLock M) → List (HeldLock M) → List LockRequest →
      Except LockError Unit × List (HeldLock M)
  | held, _, [] => (.ok (), held)
  | held, entered, request :: rest =>
      let acquired := do
        assertNext held request.name
        attempt request
      match acquired with
      | .ok lock => acquireEach attempt (held ++ [lock]) (lock :: entered) rest
      | .error error =>
          match unwind held entered with
          | .ok left => (.error error, left)
          | .error corrupted => (.error corrupted, held)

/-- `acquire_many` over one thread's stack. -/
def acquireMany (attempt : LockRequest → Except LockError (HeldLock M))
    (held : List (HeldLock M)) (requests : List LockRequest) :
    Except LockError Unit × List (HeldLock M) :=
  match assertSequence held requests with
  | .error error => (.error error, held)
  | .ok () => acquireEach attempt held [] requests

end Stack

/-! ## Threads, managers and the kernel -/

/-- An open file description of a lock file with its `flock` record. -/
structure OpenFile where
  inode : Nat
  lock : Option LockMode
  deriving DecidableEq

/-- An open lock manager and the number of acquisitions it has reserved. -/
structure Manager (R : Type) where
  directory : R
  activeCount : Int

/-- A call of `acquire` that has opened its lock file and is in `flock`. -/
structure Attempt (M : Type) where
  managerToken : M
  request : LockRequest
  blocking : Bool
  inode : Nat
  descriptor : Nat

/-- The stack entry that `_registered_lock` makes of an attempt. -/
def Attempt.lock {M : Type} (attempt : Attempt M) : HeldLock M :=
  ⟨attempt.managerToken, attempt.request.name, attempt.request.mode, attempt.inode,
    attempt.descriptor⟩

/-- The state of the host. `names` records under which name an inode was made;
`lent` counts the descriptors of a description outside every stack. -/
structure LockSystem (T M R : Type) where
  lockFiles : R → LockName → Option Nat
  names : Nat → Option LockName
  managers : M → Option (Manager R)
  descriptions : Nat → Option OpenFile
  lent : Nat → Nat
  held : T → List (HeldLock M)
  pending : T → Option (Attempt M)

namespace LockSystem

variable {T M R : Type} [DecidableEq T] [DecidableEq M] [DecidableEq R]

/-- No lock file exists and no lock manager is open. -/
def initial : LockSystem T M R :=
  ⟨fun _ _ => none, fun _ => none, fun _ => none, fun _ => none, fun _ => 0, fun _ => [],
    fun _ => none⟩

/-- Some descriptor still refers to the description. -/
def Referenced (s : LockSystem T M R) (description : Nat) : Prop :=
  (∃ t, ∃ lock ∈ s.held t, lock.descriptor = description) ∨ 0 < s.lent description

/-- A live description other than the attempt's own has a record on the same inode
that excludes it. -/
def ExcludedBy (s : LockSystem T M R) (attempt : Attempt M) (description : Nat) : Prop :=
  description ≠ attempt.descriptor ∧ s.Referenced description ∧
    ∃ mode, s.descriptions description = some ⟨attempt.inode, some mode⟩ ∧
      mode.conflicts attempt.request.mode = true

/-- `flock` lets an attempt through when no other description excludes it. -/
def Grantable (s : LockSystem T M R) (attempt : Attempt M) : Prop :=
  ∀ description, ¬ s.ExcludedBy attempt description

/-- A manager after one acquisition ended. -/
def settleAcquisition (s : LockSystem T M R) (token : M) : M → Option (Manager R) :=
  Function.update s.managers token
    ((s.managers token).map fun manager => { manager with activeCount := manager.activeCount - 1 })

/-- A manager after `_reserve_acquisition`. -/
def reserveAcquisition (s : LockSystem T M R) (token : M) : M → Option (Manager R) :=
  Function.update s.managers token
    ((s.managers token).map fun manager => { manager with activeCount := manager.activeCount + 1 })

/-- The kernel's records after a context of `acquire` was left: `LOCK_UN` acts on the
description and so for all its descriptors, and is left out for an export lease. -/
def unlocked (s : LockSystem T M R) (lock : HeldLock M) : Nat → Option OpenFile :=
  if lock.name = .export then s.descriptions
  else Function.update s.descriptions lock.descriptor
    ((s.descriptions lock.descriptor).map fun file => { file with lock := none })

end LockSystem

/-- What a step is to the threads: `granted` pushes on a stack, `released` pops,
`failed` is a call of `acquire` or `borrow_export_descriptor` that raises. A context left
out of order raises "lock stack was corrupted"; it is no step of a run. -/
inductive LockEvent (T M : Type) where
  | environment
  | requested (thread : T) (request : LockRequest)
  | granted (thread : T) (lock : HeldLock M)
  | failed (thread : T)
  | released (thread : T) (lock : HeldLock M)
  | lent (thread : T)
  | terminated (thread : T)

section Steps

variable {T M R : Type} [DecidableEq T] [DecidableEq M] [DecidableEq R]

open Function LockSystem

/-- One step of one thread, of the kernel, or of the environment. -/
inductive LockStep : LockSystem T M R → LockEvent T M → LockSystem T M R → Prop where
  /-- `initialize` creates a lock file that is absent. -/
  | create (s : LockSystem T M R) (directory : R) (name : LockName) (inode : Nat)
      (absent : s.lockFiles directory name = none) (unused : s.names inode = none) :
      LockStep s .environment
        { s with
          lockFiles := update s.lockFiles directory
            (update (s.lockFiles directory) name (some inode))
          names := update s.names inode (some name) }
  /-- The administrator removes a lock file; its inode lives on while it is open. -/
  | unlink (s : LockSystem T M R) (directory : R) (name : LockName) :
      LockStep s .environment
        { s with
          lockFiles := update s.lockFiles directory
            (update (s.lockFiles directory) name none) }
  /-- A manager is built on a lock directory. -/
  | openManager (s : LockSystem T M R) (token : M) (directory : R)
      (unused : s.managers token = none) :
      LockStep s .environment
        { s with managers := update s.managers token (some ⟨directory, 0⟩) }
  /-- `close` refuses while acquisitions are active. -/
  | closeManager (s : LockSystem T M R) (token : M) (manager : Manager R)
      (opened : s.managers token = some manager) (idle : manager.activeCount = 0) :
      LockStep s .environment { s with managers := update s.managers token none }
  /-- `acquire` or `borrow_export_descriptor` raises before it holds a lock: the order is
  wrong, the manager is closed, or the lock file or descriptor does not pass its checks. -/
  | refuse (s : LockSystem T M R) (thread : T) (running : s.pending thread = none) :
      LockStep s (.failed thread) s
  /-- `acquire` passes `_assert_next`, reserves, opens the lock file and calls `flock`. -/
  | request (s : LockSystem T M R) (thread : T) (token : M) (manager : Manager R)
      (wanted : LockRequest) (blocking : Bool) (inode description : Nat)
      (running : s.pending thread = none)
      (next : assertNext (s.held thread) wanted.name = .ok ())
      (opened : s.managers token = some manager)
      (file : s.lockFiles manager.directory wanted.name = some inode)
      (unused : s.descriptions description = none) :
      LockStep s (.requested thread wanted)
        { s with
          managers := s.reserveAcquisition token
          descriptions := update s.descriptions description (some ⟨inode, none⟩)
          pending := update s.pending thread
            (some ⟨token, wanted, blocking, inode, description⟩) }
  /-- `flock` returns and `_registered_lock` pushes the entry. -/
  | grant (s : LockSystem T M R) (thread : T) (attempt : Attempt M)
      (waiting : s.pending thread = some attempt) (free : s.Grantable attempt) :
      LockStep s (.granted thread attempt.lock)
        { s with
          descriptions := update s.descriptions attempt.descriptor
            (some ⟨attempt.inode, some attempt.request.mode⟩)
          held := update s.held thread (s.held thread ++ [attempt.lock])
          pending := update s.pending thread none }
  /-- `flock` raises: the lock is busy and the call does not block, or any other error. -/
  | fail (s : LockSystem T M R) (thread : T) (attempt : Attempt M)
      (waiting : s.pending thread = some attempt) :
      LockStep s (.failed thread)
        { s with
          managers := s.settleAcquisition attempt.managerToken
          pending := update s.pending thread none }
  /-- A context is left: its entry is popped and the lock released. The context may be left
  on another thread than the one that entered it. -/
  | release (s : LockSystem T M R) (thread : T) (lock : HeldLock M)
      (left : List (HeldLock M)) (innermost : unregister (s.held thread) lock = .ok left) :
      LockStep s (.released thread lock)
        { s with
          managers := s.settleAcquisition lock.managerToken
          descriptions := s.unlocked lock
          held := update s.held thread left }
  /-- `duplicate_export_descriptor`. -/
  | lendExport (s : LockSystem T M R) (thread : T) (token : M) (lock : HeldLock M)
      (required : requireHeld (s.held thread) token .export (some .exclusive) none true =
        .ok lock) :
      LockStep s (.lent thread)
        { s with lent := update s.lent lock.descriptor (s.lent lock.descriptor + 1) }
  /-- `duplicate_backup_descriptors`, one of its two descriptors. -/
  | lendBackup (s : LockSystem T M R) (thread : T) (token : M) (manager : Manager R)
      (name : LockName) (inode : Nat) (publication tenantState lock : HeldLock M)
      (named : name = .publication ∨ name = .tenantState)
      (outer : requireHeld (s.held thread) token .publication (some .shared) none false =
        .ok publication)
      (inner : requireHeld (s.held thread) token .tenantState (some .shared) none true =
        .ok tenantState)
      (opened : s.managers token = some manager)
      (file : s.lockFiles manager.directory name = some inode)
      (required : requireHeld (s.held thread) token name (some .shared) (some inode) false =
        .ok lock) :
      LockStep s (.lent thread)
        { s with lent := update s.lent lock.descriptor (s.lent lock.descriptor + 1) }
  /-- The recipient of a lent descriptor duplicates it. -/
  | duplicate (s : LockSystem T M R) (description : Nat) (some_lent : 0 < s.lent description) :
      LockStep s .environment
        { s with lent := update s.lent description (s.lent description + 1) }
  /-- The recipient of a lent descriptor closes it. -/
  | close (s : LockSystem T M R) (description : Nat) (some_lent : 0 < s.lent description) :
      LockStep s .environment
        { s with lent := update s.lent description (s.lent description - 1) }
  /-- `borrow_export_descriptor`: the supplied descriptor must refer to the current export
  inode and own its exclusive record; the context registers a duplicate of it. -/
  | borrow (s : LockSystem T M R) (thread : T) (token : M) (manager : Manager R)
      (inode description : Nat) (running : s.pending thread = none)
      (next : assertNext (s.held thread) .export = .ok ())
      (opened : s.managers token = some manager)
      (supplied : 0 < s.lent description)
      (file : s.lockFiles manager.directory .export = some inode)
      (owned : s.descriptions description = some ⟨inode, some .exclusive⟩) :
      LockStep s (.granted thread ⟨token, .export, .exclusive, inode, description⟩)
        { s with
          managers := s.reserveAcquisition token
          held := update s.held thread
            (s.held thread ++ [⟨token, .export, .exclusive, inode, description⟩]) }
  /-- A process dies with its threads: the kernel closes their descriptors. -/
  | terminate (s : LockSystem T M R) (thread : T) :
      LockStep s (.terminated thread)
        { s with held := update s.held thread [], pending := update s.pending thread none }

/-- A run of the host. -/
inductive LockRun : LockSystem T M R → LockSystem T M R → Prop where
  | refl (s : LockSystem T M R) : LockRun s s
  | step {s s₁ s₂ : LockSystem T M R} {event : LockEvent T M} :
      LockRun s s₁ → LockStep s₁ event s₂ → LockRun s s₂

/-- The attempt's thread is blocked on an entry of the other's stack. -/
def BlockedBy (attempt : Attempt M) (lock : HeldLock M) : Bool :=
  attempt.blocking && decide (lock.inode = attempt.inode) &&
    decide (lock.descriptor ≠ attempt.descriptor) && lock.mode.conflicts attempt.request.mode

/-- The wait-for graph of a state. -/
def LockSystem.WaitsFor (s : LockSystem T M R) : T → T → Prop :=
  Library.WaitsFor (fun t attempt => s.pending t = some attempt) (fun t lock => lock ∈ s.held t)
    (fun lock attempt => BlockedBy attempt lock = true)

end Steps

end StaticHostAgent.Host
