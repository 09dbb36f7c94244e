import StaticHostAgent.Library.Handlers
import StaticHostAgent.State.Repository

/-!
# The running server and the selected generation

The generation that is selected on disk and the configuration that the server runs are two states,
changed by calls that may fail before or after they took effect. What each call answers is taken
from a stream, so that a statement for all streams is one for all outcomes of all calls.
-/

set_option autoImplicit false

namespace StaticHostAgent.Activation

open Library Contracts Host State

/-- The payload file of a generation, as its manifest binds it. -/
structure GenerationFile where
  size : Nat
  sha256 : Sha256
  deriving DecidableEq

/-- The exact immutable payload inventory for one generation; the format of its route state digest is
fixed. -/
structure CaddyGenerationManifest where
  generationId : Uuid7
  routeStateDigest : Sha256
  binary : GenerationFile
  environment : GenerationFile
  configuration : GenerationFile
  routeMetadata : GenerationFile
  deriving DecidableEq

/-- What the activation raises. `control` stands for what is no `Exception`. -/
inductive ActivationError where
  | agent (error : AgentError)
  | publicationDisabled
  | caddyGeneration (message : String)
  | caddyAdmin (message : String)
  | osError
  | routeActivation (message : String)
  | archiveActivation (message : String)
  | control
  deriving DecidableEq

def ActivationError.isException : ActivationError → Bool
  | .control => false
  | _ => true

/-- `AuditCapacityError`, `CapacityError` and `StateAdmissionRejectedError`. -/
def isCapacityError : AgentError → Bool
  | .auditCapacity _ | .capacity _ | .capacityRejected _ | .stateAdmissionRejected _ => true
  | _ => false

def ActivationError.isCapacity : ActivationError → Bool
  | .agent error => isCapacityError error
  | _ => false

/-- What a call outside the state answers. -/
inductive Answer where
  | succeeds
  /-- As `succeeds`, but a configuration that is sent does not take effect. -/
  | succeedsInVain
  | refuses (error : ActivationError)
  | appliesAndRaises (error : ActivationError)
  deriving DecidableEq

/-- The call raises nothing. -/
def Answer.passes : Answer → Bool
  | .succeeds | .succeedsInVain => true
  | .refuses _ | .appliesAndRaises _ => false

/-- The durable records, the selected generation and the configuration that runs; `writes` counts
the durable writes of the commit. -/
structure ActivationState where
  store : Store
  active : Uuid7
  running : Sha256
  writes : Nat
  answers : Nat → Answer

namespace ActivationState

/-- The state behind one more call. -/
def next (w : ActivationState) : ActivationState := { w with answers := fun n => w.answers (n + 1) }

/-- The state behind `n` more writes of the commit. -/
def written (s : Store) (n : Nat) (w : ActivationState) : ActivationState :=
  { w with store := s, writes := w.writes + n }

end ActivationState

abbrev Activate (α : Type) : Type := Durable ActivationState ActivationError α

/-! ## Calls -/

/-- A call that reads; refused, it raises `refused` of what the stream answers. -/
def probe (reading : ActivationState → Except ActivationError Unit)
    (refused : ActivationError → ActivationError) : Activate Unit := fun w =>
  match w.answers 0 with
  | .succeeds | .succeedsInVain => ⟨[], w.next, reading w⟩
  | .refuses error | .appliesAndRaises error => ⟨[], w.next, .error (refused error)⟩

/-- A call that makes a durable change, before or behind which it may fail. -/
def change (f : ActivationState → ActivationState) : Activate Unit := fun w =>
  match w.answers 0 with
  | .succeeds | .succeedsInVain => ⟨[f w.next], f w.next, .ok ()⟩
  | .refuses error => ⟨[], w.next, .error error⟩
  | .appliesAndRaises error => ⟨[f w.next], f w.next, .error error⟩

/-- A commit of the durable records. -/
def onStore {α : Type} (p : Durable Store AgentError α) : Activate α := fun w =>
  let run := p w.store
  ⟨run.trace.mapIdx fun n s => w.written s (n + 1), w.written run.state run.trace.length,
    mapError ActivationError.agent run.result⟩

/-- A reading of the durable records. -/
def readStore {α : Type} (f : Store → Except AgentError α) : Activate α :=
  Durable.query fun w => mapError ActivationError.agent (f w.store)

/-- Handle only what is an `Exception`. -/
def rescueException {α : Type} (p : Activate α) (handler : ActivationError → Activate α) :
    Activate α :=
  Durable.rescue p fun error => if error.isException then handler error else Durable.fail error

/-- Handle only the three capacity errors. -/
def rescueCapacity {α : Type} (p : Activate α) (handler : ActivationError → Activate α) :
    Activate α :=
  Durable.rescue p fun error => if error.isCapacity then handler error else Durable.fail error

/-- The publication gate. -/
def requireEnabled : Activate Unit := probe (fun _ => .ok ()) fun _ => .publicationDisabled

def removeAbandonedReferenceTemporaries : Activate Unit := probe (fun _ => .ok ()) fun _ => .osError

/-- The selected generation, unless it cannot be read. -/
def readActive : Activate Uuid7 := do
  probe (fun _ => .ok ()) fun _ => .osError
  Durable.query fun w => .ok w.active

/-- Durably select one generation. -/
def selectActive (generationId : Uuid7) : Activate Unit :=
  change fun w => { w with active := generationId }

/-- Match the loaded configuration with the generation's. -/
def verifyRunningCaddy (generation : CaddyGenerationManifest) : Activate Unit :=
  probe (fun w => require (decide (w.running = generation.configuration.sha256))
    (.caddyAdmin "running Caddy configuration disagrees with its generation")) id

/-- Send the configuration of the generation to the server, which may accept it without running
it. -/
def loadCaddyConfiguration (generation : CaddyGenerationManifest) : Activate Unit := fun w =>
  if w.answers 0 = .succeedsInVain then ⟨[], w.next, .ok ()⟩
  else change (fun w => { w with running := generation.configuration.sha256 }) w

/-- Verify old, load new, then verify new for a config-only transition. -/
def reloadCaddyGeneration (previous candidate : CaddyGenerationManifest) : Activate Unit := do
  Durable.query fun _ => require (decide (previous.generationId ≠ candidate.generationId))
    (.caddyAdmin "Caddy reload generations must be distinct")
  Durable.query fun _ => require (decide (previous.binary = candidate.binary) &&
      decide (previous.environment = candidate.environment))
    (.caddyAdmin "Caddy reload attempted to change a host input")
  verifyRunningCaddy previous
  loadCaddyConfiguration candidate
  verifyRunningCaddy candidate

/-- Load and verify a selected known-good generation after candidate failure. -/
def restoreCaddyGeneration (generation : CaddyGenerationManifest) : Activate Unit := do
  loadCaddyConfiguration generation
  verifyRunningCaddy generation

/-- The host with its verified generations. -/
structure ActivationHost extends StateHost where
  generations : Uuid7 → Option CaddyGenerationManifest

/-- Pin and verify one explicit complete generation. -/
def openVerifiedGeneration (host : ActivationHost) (generationId : Uuid7) :
    Activate CaddyGenerationManifest :=
  Durable.query fun _ =>
    match host.generations generationId with
    | none => .error .osError
    | some generation => do
        require (decide (generation.generationId = generationId))
          (.caddyGeneration "generation directory name disagrees with its manifest")
        pure generation

end StaticHostAgent.Activation
