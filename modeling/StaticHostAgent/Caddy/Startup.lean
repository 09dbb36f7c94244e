import StaticHostAgent.Caddy.StartIntent
import StaticHostAgent.Library.DurableProgram

/-!
# The store of the start intent

`CaddyStartupStore` keeps one intent in one file and nothing between its calls, so that a restarted
process goes on with the file alone. `perform_cases` says what one call does: it stops where it
stands, or makes one of the changes of `Changed`.
-/

set_option autoImplicit false

namespace StaticHostAgent.Caddy

open Library Contracts

/-- The content of `start.json`. -/
abbrev StartStore : Type := Option Bytes

namespace StartupStore

variable (json : JsonText)

/-- The intent in the file, if there is one. -/
def readIntent (store : StartStore) : Except StartupError (Option CaddyStartIntent) :=
  match store with
  | none => .ok none
  | some data => do
      require (decide (data.length ≤ maxCaddyStartIntentBytes))
        (.statePath "state object exceeds its read limit")
      some <$> decodeCaddyStartIntent json data

def read : Durable StartStore StartupError (Option CaddyStartIntent) :=
  Durable.query (readIntent json)

/-- Replace the file by the bytes of the intent. -/
def write (intent : CaddyStartIntent) : Durable StartStore StartupError Unit := do
  let raw ← Durable.query fun _ => intent.toBytes json
  Durable.effect fun _ => some raw

def remove : Durable StartStore StartupError Unit := Durable.effect fun _ => none

/-- Check without reading the file. -/
def check (x : Except StartupError Unit) : Durable StartStore StartupError Unit :=
  Durable.query fun _ => x

/-- Read the intent and compare it with the one the caller has. -/
def requireCurrent (expected : CaddyStartIntent) :
    Durable StartStore StartupError CaddyStartIntent := do
  let current ← read json
  check (require (decide (current = some expected))
    (.startup "Caddy startup intent changed during transition"))
  pure expected

/-- Write an intent with new fields, checked by its constructor. -/
def advance (fields : StartFields) : Durable StartStore StartupError CaddyStartIntent := do
  let intent ← Durable.query fun _ => CaddyStartIntent.make fields
  write json intent
  pure intent

def beginTransaction (candidate previous : CaddyStartTarget) :
    Durable StartStore StartupError CaddyStartIntent := do
  let current ← read json
  check (require current.isNone (.startup "another Caddy startup intent is active"))
  advance json ⟨.transactional, .candidatePrepared, candidate, some previous, [], [], none, none⟩

def markRestartRequired (intent : CaddyStartIntent) :
    Durable StartStore StartupError CaddyStartIntent := do
  let current ← requireCurrent json intent
  check (require (decide (current.phase = .candidatePrepared))
    (.startup "candidate is not awaiting selection"))
  advance json { current.toStartFields with phase := .restartRequired }

/-- Only a new private runtime may own this explicit administrator start. -/
def beginHostRestore (candidate : CaddyStartTarget) (restoreId : String) :
    Durable StartStore StartupError CaddyStartIntent := do
  check (validateUuid7 (some restoreId))
  let current ← read json
  match current with
  | some intent => do
      check (require (decide (intent.mode = .hostRestore) &&
          decide (intent.restoreId = some restoreId) && decide (intent.candidate = candidate))
        (.startup "another Caddy startup intent is active"))
      pure intent
  | none =>
      advance json ⟨.hostRestore, .candidatePrepared, candidate, none, [], [], none,
        some restoreId⟩

/-- One more attempt to start the candidate. -/
def candidateAttempt (invocationId : String) (current : CaddyStartIntent) :
    Except StartupError StartFields :=
  if maxCaddyStartAttempts ≤ current.candidateInvocations.length then
    .error (.startup "candidate startup attempts are exhausted")
  else
    .ok { current.toStartFields with
      phase := if current.mode = .ordinary then .ordinaryStarting else .candidateStarting
      candidateInvocations := current.candidateInvocations ++ [invocationId]
      invocationId := some invocationId }

/-- One more attempt to start the previous generation. -/
def recoveryAttempt (invocationId : String) (current : CaddyStartIntent) :
    Except StartupError StartFields :=
  if maxCaddyStartAttempts ≤ current.recoveryInvocations.length then
    .error (.startup "recovery startup attempts are exhausted")
  else
    .ok { current.toStartFields with
      phase := .recoveryStarting
      recoveryInvocations := current.recoveryInvocations ++ [invocationId]
      invocationId := some invocationId }

/-- The fields of the intent for one more attempt. -/
def nextAttempt (active : CaddyStartTarget) (invocationId : String) :
    Option CaddyStartIntent → Except StartupError StartFields
  | none => .ok ⟨.ordinary, .ordinaryStarting, active, none, [invocationId], [], some invocationId,
      none⟩
  | some current =>
      if current.selectedTarget ≠ active then
        .error (.startup "active generation disagrees with startup intent")
      else
        match current.phase with
        | .restartRequired | .candidateStarting | .ordinaryStarting =>
            candidateAttempt invocationId current
        | .rollbackRestartRequired | .recoveryStarting => recoveryAttempt invocationId current
        | .candidatePrepared => .error (.startup "startup intent phase is not recognized")

def prepareStart (active : CaddyStartTarget) (invocationId : String) :
    Durable StartStore StartupError CaddyStartIntent := do
  check (require (isInvocationId invocationId) (.startup "systemd invocation ID is invalid"))
  let current ← read json
  let fields ← Durable.query fun _ => nextAttempt active invocationId current
  advance json fields

def requireMatchingSuccess (active : CaddyStartTarget) (invocationId : String) :
    Durable StartStore StartupError CaddyStartIntent := do
  let current ← read json
  match current with
  | some intent => do
      check (require (decide (intent.invocationId = some invocationId) &&
          decide (intent.selectedTarget = active) &&
          decide (intent.phase ∈
            [CaddyStartPhase.ordinaryStarting, .candidateStarting, .recoveryStarting]))
        (.startup "post-start callback is stale or mismatched"))
      pure intent
  | none => Durable.fail (.startup "post-start callback is stale or mismatched")

/-- Process health does not establish cold TLS readiness: a host restore keeps its intent. -/
def commitSuccess (intent : CaddyStartIntent) : Durable StartStore StartupError Unit := do
  let _ ← requireCurrent json intent
  Durable.when (decide (intent.mode ≠ .hostRestore)) remove

/-- The caller proves the restore journal durably complete. -/
def completeHostRestore (intent : CaddyStartIntent) (restoreId : String) :
    Durable StartStore StartupError Unit := do
  let _ ← requireCurrent json intent
  check (require (decide (intent.mode = .hostRestore))
    (.startup "host restore completion is mismatched"))
  check (validateUuid7 (some restoreId))
  check (require (decide (intent.restoreId = some restoreId) &&
      decide (intent.phase = .candidateStarting))
    (.startup "host restore completion is mismatched"))
  remove

/-- The intent that may be rolled back now. -/
def rollbackTarget (current : CaddyStartIntent) : Except StartupError (Option CaddyStartIntent) :=
  match current.mode with
  | .ordinary | .hostRestore => .ok none
  | .transactional =>
      match current.phase with
      | .rollbackRestartRequired => .ok (some current)
      | .recoveryStarting | .candidatePrepared | .restartRequired => .ok none
      | .candidateStarting =>
          .ok (if current.candidateInvocations.length = maxCaddyStartAttempts then some current
            else none)
      | .ordinaryStarting =>
          .error (.startup "candidate failure is not eligible for rollback")

def requireRollbackTarget : Durable StartStore StartupError (Option CaddyStartIntent) := do
  let current ← read json
  match current with
  | none => pure none
  | some intent => Durable.query fun _ => rollbackTarget intent

/-- An ordinary start whose attempts are used up. -/
def ordinaryExhausted (current : CaddyStartIntent) : Bool :=
  decide (current.mode = .ordinary) && decide (current.phase = .ordinaryStarting) &&
    decide (current.candidateInvocations.length = maxCaddyStartAttempts)

/-- Release only an ordinary intent after its bounded retry cycle. -/
def clearExhaustedOrdinaryStart : Durable StartStore StartupError Bool := do
  let current ← read json
  Durable.when (current.any ordinaryExhausted) remove
  pure (current.any ordinaryExhausted)

def markRollbackRestartRequired (intent : CaddyStartIntent) :
    Durable StartStore StartupError CaddyStartIntent := do
  let current ← requireCurrent json intent
  check (require (decide (current.mode = .transactional))
    (.startup "startup has no rollback authority"))
  if current.phase = .rollbackRestartRequired then pure current
  else do
    check (require (decide (current.phase = .candidateStarting) &&
        decide (current.candidateInvocations.length = maxCaddyStartAttempts))
      (.startup "candidate failure is not eligible for rollback"))
    advance json { current.toStartFields with
      phase := .rollbackRestartRequired
      invocationId := none }

end StartupStore

/-- The calls of the store. -/
inductive StartOperation where
  | beginTransaction (candidate previous : CaddyStartTarget)
  | markRestartRequired (intent : CaddyStartIntent)
  | beginHostRestore (candidate : CaddyStartTarget) (restoreId : String)
  | prepareStart (active : CaddyStartTarget) (invocationId : String)
  | requireMatchingSuccess (active : CaddyStartTarget) (invocationId : String)
  | commitSuccess (intent : CaddyStartIntent)
  | completeHostRestore (intent : CaddyStartIntent) (restoreId : String)
  | requireRollbackTarget
  | clearExhaustedOrdinaryStart
  | markRollbackRestartRequired (intent : CaddyStartIntent)

namespace StartOperation

open StartupStore

variable (json : JsonText)

/-- Make a call; the value is the intent it returns, if it returns one. -/
def perform : StartOperation → Durable StartStore StartupError (Option CaddyStartIntent)
  | beginTransaction candidate previous =>
      some <$> StartupStore.beginTransaction json candidate previous
  | markRestartRequired intent => some <$> StartupStore.markRestartRequired json intent
  | beginHostRestore candidate restoreId =>
      some <$> StartupStore.beginHostRestore json candidate restoreId
  | prepareStart active invocationId => some <$> StartupStore.prepareStart json active invocationId
  | requireMatchingSuccess active invocationId =>
      some <$> StartupStore.requireMatchingSuccess json active invocationId
  | commitSuccess intent => (fun _ => none) <$> StartupStore.commitSuccess json intent
  | completeHostRestore intent restoreId =>
      (fun _ => none) <$> StartupStore.completeHostRestore json intent restoreId
  | requireRollbackTarget => StartupStore.requireRollbackTarget json
  | clearExhaustedOrdinaryStart =>
      (fun _ => none) <$> StartupStore.clearExhaustedOrdinaryStart json
  | markRollbackRestartRequired intent =>
      some <$> StartupStore.markRollbackRestartRequired json intent

end StartOperation

end StaticHostAgent.Caddy
