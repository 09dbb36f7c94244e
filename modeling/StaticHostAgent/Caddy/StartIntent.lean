import StaticHostAgent.Contracts.Encoding
import StaticHostAgent.Contracts.Texts
import StaticHostAgent.Library.JsonText

/-!
# The Caddy start intent

One bounded startup or recovery operation, as `caddy_startup.py` keeps it. A `CaddyStartIntent` has
passed the checks of its constructor; `toBytes` and `decodeCaddyStartIntent` are its durable form,
and `decode_toBytes` says that a stored intent is read back.
-/

set_option autoImplicit false

namespace StaticHostAgent.Caddy

open Library Contracts

/-- The exceptions of the startup state. -/
inductive StartupError where
  | startup (message : String)
  | contract (error : ContractError)
  | statePath (message : String)
  deriving DecidableEq

def maxCaddyStartIntentBytes : Nat := 16 * 1024

def maxCaddyStartAttempts : Nat := 3

/-! ## Texts -/

def isInvocationId (text : String) : Bool := fullmatch (List.replicate 32 hexClass) text

def invalidIdentifier : ContractError :=
  ⟨.invalidIdentifier, "identifier is not a canonical UUIDv7"⟩

/-- Require the text of a UUIDv7. -/
def validateUuid7 (value : Option String) : Except StartupError Unit :=
  require (value.any isUuid7) (.contract invalidIdentifier)

/-! ## Intents -/

/-- Authority available to one bounded startup operation. -/
inductive CaddyStartMode where
  | ordinary | transactional | hostRestore
  deriving DecidableEq

def CaddyStartMode.value : CaddyStartMode → String
  | .ordinary => "ordinary"
  | .transactional => "transactional"
  | .hostRestore => "host-restore"

inductive CaddyStartPhase where
  | candidatePrepared | restartRequired | ordinaryStarting | candidateStarting
  | rollbackRestartRequired | recoveryStarting
  deriving DecidableEq

def CaddyStartPhase.value : CaddyStartPhase → String
  | .candidatePrepared => "candidate-prepared"
  | .restartRequired => "restart-required"
  | .ordinaryStarting => "ordinary-starting"
  | .candidateStarting => "candidate-starting"
  | .rollbackRestartRequired => "rollback-restart-required"
  | .recoveryStarting => "recovery-starting"

/-- One exact manifest-verified generation selected by an intent. -/
structure CaddyStartTarget where
  generationId : String
  manifestSha256 : String
  generation_valid : isUuid7 generationId = true
  manifest_valid : isSha256 manifestSha256 = true
  deriving DecidableEq

/-- The constructor of a target. -/
def CaddyStartTarget.make (generationId manifestSha256 : String) :
    Except StartupError CaddyStartTarget :=
  if hgeneration : isUuid7 generationId = true then
    if hmanifest : isSha256 manifestSha256 = true then
      .ok ⟨generationId, manifestSha256, hgeneration, hmanifest⟩
    else .error (.startup "startup target manifest digest is invalid")
  else .error (.startup "startup target is not a UUIDv7 generation")

/-- The fields of an intent, before its checks. -/
structure StartFields where
  mode : CaddyStartMode
  phase : CaddyStartPhase
  candidate : CaddyStartTarget
  previous : Option CaddyStartTarget
  candidateInvocations : List String
  recoveryInvocations : List String
  invocationId : Option String
  restoreId : Option String
  deriving DecidableEq

namespace StartFields

/-- The candidate attempts that may have been made. -/
def attemptsMade (invocations : List String) : Bool :=
  decide (1 ≤ invocations.length) && decide (invocations.length ≤ maxCaddyStartAttempts)

def checkHostRestore (f : StartFields) : Except StartupError Unit := do
  validateUuid7 f.restoreId
  require (f.previous.isNone && f.recoveryInvocations.isEmpty)
    (.startup "host restore has rollback authority")
  require (match f.phase with
    | .candidatePrepared | .restartRequired =>
        f.candidateInvocations.isEmpty && f.invocationId.isNone
    | .candidateStarting => attemptsMade f.candidateInvocations &&
        decide (f.invocationId = f.candidateInvocations.getLast?)
    | _ => false)
    (.startup "host restore startup phase is invalid")

def checkOrdinary (f : StartFields) : Except StartupError Unit :=
  require (f.previous.isNone && decide (f.phase = .ordinaryStarting) &&
      attemptsMade f.candidateInvocations && f.recoveryInvocations.isEmpty &&
      decide (f.invocationId = f.candidateInvocations.getLast?))
    (.startup "ordinary startup has transactional authority")

/-- The counts of attempts and the invocation that each transactional phase has. -/
def expectedShape (f : StartFields) : Option (Bool × Bool × Option String) :=
  match f.phase with
  | .candidatePrepared | .restartRequired =>
      some (f.candidateInvocations.isEmpty, f.recoveryInvocations.isEmpty, none)
  | .candidateStarting =>
      some (attemptsMade f.candidateInvocations, f.recoveryInvocations.isEmpty,
        f.candidateInvocations.getLast?)
  | .rollbackRestartRequired =>
      some (decide (f.candidateInvocations.length = maxCaddyStartAttempts),
        f.recoveryInvocations.isEmpty, none)
  | .recoveryStarting =>
      some (decide (f.candidateInvocations.length = maxCaddyStartAttempts),
        attemptsMade f.recoveryInvocations, f.recoveryInvocations.getLast?)
  | .ordinaryStarting => none

def checkTransactional (f : StartFields) : Except StartupError Unit := do
  require (f.previous.isSome && decide (f.previous ≠ some f.candidate))
    (.startup "transactional startup has no distinct predecessor")
  match f.expectedShape with
  | none => .error (.startup "transactional startup has an ordinary phase")
  | some (candidateMatches, recoveryMatches, expectedInvocation) => do
      require candidateMatches (.startup "transactional candidate attempts disagree with phase")
      require recoveryMatches (.startup "transactional recovery attempts disagree with phase")
      require (decide (f.invocationId = expectedInvocation))
        (.startup "transactional invocation disagrees with phase")

/-- The three disjoint bounded startup protocols. -/
def checkProtocol (f : StartFields) : Except StartupError Unit :=
  match f.mode with
  | .hostRestore => f.checkHostRestore
  | .ordinary => f.checkOrdinary
  | .transactional => f.checkTransactional

/-- `__post_init__`. -/
def postInit (f : StartFields) : Except StartupError Unit := do
  require (decide (f.mode = .hostRestore) || f.restoreId.isNone)
    (.startup "ordinary startup carries restore authority")
  f.checkProtocol
  require ((f.candidateInvocations ++ f.recoveryInvocations).all isInvocationId)
    (.startup "startup intent contains an invalid invocation ID")
  require (decide (f.candidateInvocations ++ f.recoveryInvocations).Nodup)
    (.startup "startup intent reuses an invocation ID")

end StartFields

namespace StartFields

/-- Between one and three attempts were made, the last one under the invocation. -/
structure Attempted (invocations : List String) (invocationId : Option String) : Prop where
  made : 1 ≤ invocations.length
  bounded : invocations.length ≤ maxCaddyStartAttempts
  latest : invocationId = invocations.getLast?

/-- No attempt has been made. -/
structure Unattempted (f : StartFields) : Prop where
  candidate : f.candidateInvocations = []
  recovery : f.recoveryInvocations = []
  latest : f.invocationId = none

/-- The shapes of intents, by the protocol and its phase. -/
inductive Shape (f : StartFields) : Prop where
  | restorePrepared (id : String) (hmode : f.mode = .hostRestore) (hid : f.restoreId = some id)
      (hvalid : isUuid7 id = true) (hprevious : f.previous = none)
      (hphase : f.phase = .candidatePrepared ∨ f.phase = .restartRequired)
      (hnone : f.Unattempted)
  | restoreStarting (id : String) (hmode : f.mode = .hostRestore) (hid : f.restoreId = some id)
      (hvalid : isUuid7 id = true) (hprevious : f.previous = none)
      (hphase : f.phase = .candidateStarting)
      (hattempted : Attempted f.candidateInvocations f.invocationId)
      (hrecovery : f.recoveryInvocations = [])
  | ordinary (hmode : f.mode = .ordinary) (hid : f.restoreId = none) (hprevious : f.previous = none)
      (hphase : f.phase = .ordinaryStarting)
      (hattempted : Attempted f.candidateInvocations f.invocationId)
      (hrecovery : f.recoveryInvocations = [])
  | prepared (target : CaddyStartTarget) (hmode : f.mode = .transactional) (hid : f.restoreId = none)
      (hprevious : f.previous = some target) (hdistinct : target ≠ f.candidate)
      (hphase : f.phase = .candidatePrepared ∨ f.phase = .restartRequired)
      (hnone : f.Unattempted)
  | candidateStarting (target : CaddyStartTarget) (hmode : f.mode = .transactional)
      (hid : f.restoreId = none) (hprevious : f.previous = some target)
      (hdistinct : target ≠ f.candidate) (hphase : f.phase = .candidateStarting)
      (hattempted : Attempted f.candidateInvocations f.invocationId)
      (hrecovery : f.recoveryInvocations = [])
  | rollbackRequired (target : CaddyStartTarget) (hmode : f.mode = .transactional)
      (hid : f.restoreId = none) (hprevious : f.previous = some target)
      (hdistinct : target ≠ f.candidate) (hphase : f.phase = .rollbackRestartRequired)
      (hexhausted : f.candidateInvocations.length = maxCaddyStartAttempts)
      (hrecovery : f.recoveryInvocations = []) (hlatest : f.invocationId = none)
  | recoveryStarting (target : CaddyStartTarget) (hmode : f.mode = .transactional)
      (hid : f.restoreId = none) (hprevious : f.previous = some target)
      (hdistinct : target ≠ f.candidate) (hphase : f.phase = .recoveryStarting)
      (hexhausted : f.candidateInvocations.length = maxCaddyStartAttempts)
      (hattempted : Attempted f.recoveryInvocations f.invocationId)

/-- What the constructor accepts. -/
structure Valid (f : StartFields) : Prop where
  shape : f.Shape
  invocations : ∀ id ∈ f.candidateInvocations ++ f.recoveryInvocations, isInvocationId id = true
  distinct : (f.candidateInvocations ++ f.recoveryInvocations).Nodup

variable {f : StartFields}

theorem attemptsMade_iff {invocations : List String} :
    attemptsMade invocations = true ↔
      1 ≤ invocations.length ∧ invocations.length ≤ maxCaddyStartAttempts := by
  simp [attemptsMade]

theorem checkHostRestore_shape (hmode : f.mode = .hostRestore)
    (h : f.checkHostRestore = .ok ()) : f.Shape := by
  simp only [checkHostRestore, validateUuid7, bind_eq_ok, require_eq_ok, Bool.and_eq_true,
    Option.isNone_iff_eq_none, List.isEmpty_iff] at h
  obtain ⟨-, hid, -, ⟨hprevious, hrecovery⟩, hphase⟩ := h
  obtain ⟨id, hsome, hvalid⟩ := (Option.any_eq_true _ _).1 hid
  cases hp : f.phase with
  | candidatePrepared =>
      simp only [hp, Bool.and_eq_true, List.isEmpty_iff, Option.isNone_iff_eq_none] at hphase
      exact .restorePrepared id hmode hsome hvalid hprevious (Or.inl hp)
        ⟨hphase.1, hrecovery, hphase.2⟩
  | restartRequired =>
      simp only [hp, Bool.and_eq_true, List.isEmpty_iff, Option.isNone_iff_eq_none] at hphase
      exact .restorePrepared id hmode hsome hvalid hprevious (Or.inr hp)
        ⟨hphase.1, hrecovery, hphase.2⟩
  | candidateStarting =>
      simp only [hp, Bool.and_eq_true, attemptsMade_iff, decide_eq_true_eq] at hphase
      exact .restoreStarting id hmode hsome hvalid hprevious hp
        ⟨hphase.1.1, hphase.1.2, hphase.2⟩ hrecovery
  | ordinaryStarting | rollbackRestartRequired | recoveryStarting => simp [hp] at hphase

theorem checkOrdinary_shape (hmode : f.mode = .ordinary) (hid : f.restoreId = none)
    (h : f.checkOrdinary = .ok ()) : f.Shape := by
  simp only [checkOrdinary, require_eq_ok, Bool.and_eq_true, Option.isNone_iff_eq_none,
    List.isEmpty_iff, decide_eq_true_eq, attemptsMade_iff] at h
  obtain ⟨⟨⟨⟨hprevious, hphase⟩, hmade⟩, hrecovery⟩, hlatest⟩ := h
  exact .ordinary hmode hid hprevious hphase ⟨hmade.1, hmade.2, hlatest⟩ hrecovery

theorem checkTransactional_eq_ok :
    f.checkTransactional = .ok () ↔
      (∃ target, f.previous = some target ∧ target ≠ f.candidate) ∧
        ∃ latest, f.expectedShape = some (true, true, latest) ∧ f.invocationId = latest := by
  have hprevious : (f.previous.isSome && decide (f.previous ≠ some f.candidate)) = true ↔
      ∃ target, f.previous = some target ∧ target ≠ f.candidate := by
    cases f.previous with
    | none => simp
    | some target => simp
  simp only [checkTransactional, bind_eq_ok, require_eq_ok, hprevious]
  constructor
  · rintro ⟨-, htarget, h⟩
    refine ⟨htarget, ?_⟩
    cases hshape : f.expectedShape with
    | none => simp [hshape] at h
    | some shape =>
        obtain ⟨candidate, recovery, latest⟩ := shape
        simp only [hshape, bind_eq_ok, require_eq_ok, decide_eq_true_eq] at h
        obtain ⟨-, rfl, -, rfl, hlatest⟩ := h
        exact ⟨latest, rfl, hlatest⟩
  · rintro ⟨htarget, latest, hshape, hlatest⟩
    refine ⟨(), htarget, ?_⟩
    rw [hshape]
    simp only [bind_eq_ok, require_eq_ok, decide_eq_true_eq]
    exact ⟨(), trivial, (), trivial, hlatest⟩

theorem checkTransactional_shape (hmode : f.mode = .transactional) (hid : f.restoreId = none)
    (h : f.checkTransactional = .ok ()) : f.Shape := by
  obtain ⟨⟨target, hprevious, hdistinct⟩, latest, hshape, hlatest⟩ := checkTransactional_eq_ok.1 h
  cases hp : f.phase with
  | candidatePrepared =>
      simp only [expectedShape, hp, Option.some.injEq, Prod.mk.injEq, List.isEmpty_iff] at hshape
      obtain ⟨hcandidate, hrecovery, rfl⟩ := hshape
      exact .prepared target hmode hid hprevious hdistinct (Or.inl hp)
        ⟨hcandidate, hrecovery, hlatest⟩
  | restartRequired =>
      simp only [expectedShape, hp, Option.some.injEq, Prod.mk.injEq, List.isEmpty_iff] at hshape
      obtain ⟨hcandidate, hrecovery, rfl⟩ := hshape
      exact .prepared target hmode hid hprevious hdistinct (Or.inr hp)
        ⟨hcandidate, hrecovery, hlatest⟩
  | candidateStarting =>
      simp only [expectedShape, hp, Option.some.injEq, Prod.mk.injEq, List.isEmpty_iff,
        attemptsMade_iff] at hshape
      obtain ⟨hmade, hrecovery, rfl⟩ := hshape
      exact .candidateStarting target hmode hid hprevious hdistinct hp
        ⟨hmade.1, hmade.2, hlatest⟩ hrecovery
  | rollbackRestartRequired =>
      simp only [expectedShape, hp, Option.some.injEq, Prod.mk.injEq, List.isEmpty_iff,
        decide_eq_true_eq] at hshape
      obtain ⟨hexhausted, hrecovery, rfl⟩ := hshape
      exact .rollbackRequired target hmode hid hprevious hdistinct hp hexhausted hrecovery hlatest
  | recoveryStarting =>
      simp only [expectedShape, hp, Option.some.injEq, Prod.mk.injEq, attemptsMade_iff,
        decide_eq_true_eq] at hshape
      obtain ⟨hexhausted, hmade, rfl⟩ := hshape
      exact .recoveryStarting target hmode hid hprevious hdistinct hp hexhausted
        ⟨hmade.1, hmade.2, hlatest⟩
  | ordinaryStarting => simp [expectedShape, hp] at hshape

theorem valid_of_postInit (h : f.postInit = .ok ()) : f.Valid := by
  unfold postInit at h
  obtain ⟨_, hrestore, h⟩ := bind_eq_ok.1 h
  obtain ⟨_, hmode, h⟩ := bind_eq_ok.1 h
  obtain ⟨_, hinvocations, hdistinct⟩ := bind_eq_ok.1 h
  have hid : f.mode = .hostRestore ∨ f.restoreId = none := by
    simpa [require_eq_ok] using hrestore
  rw [require_eq_ok, List.all_eq_true] at hinvocations
  rw [require_eq_ok, decide_eq_true_eq] at hdistinct
  refine ⟨?_, hinvocations, hdistinct⟩
  unfold checkProtocol at hmode
  cases hm : f.mode with
  | hostRestore =>
      rw [hm] at hmode
      exact checkHostRestore_shape hm hmode
  | ordinary =>
      rw [hm] at hmode
      exact checkOrdinary_shape hm (hid.resolve_left (by rw [hm]; decide)) hmode
  | transactional =>
      rw [hm] at hmode
      exact checkTransactional_shape hm (hid.resolve_left (by rw [hm]; decide)) hmode

end StartFields

/-- One complete bounded startup or transactional recovery operation. -/
structure CaddyStartIntent extends StartFields where
  checked : toStartFields.postInit = .ok ()

namespace CaddyStartIntent

theorem ext_fields {i j : CaddyStartIntent} (h : i.toStartFields = j.toStartFields) : i = j := by
  cases i
  cases j
  cases h
  rfl

instance : DecidableEq CaddyStartIntent := fun i j =>
  decidable_of_iff (i.toStartFields = j.toStartFields) ⟨ext_fields, fun h => h ▸ rfl⟩

/-- The constructor of an intent. -/
def make (f : StartFields) : Except StartupError CaddyStartIntent :=
  match h : f.postInit with
  | .ok () => .ok ⟨f, h⟩
  | .error e => .error e

theorem make_eq_ok {f : StartFields} {i : CaddyStartIntent} :
    make f = .ok i ↔ i.toStartFields = f := by
  unfold make
  split
  · rename_i h
    exact ⟨fun hi => by rw [← Except.ok.inj hi], fun hi => congrArg Except.ok (ext_fields hi.symm)⟩
  · rename_i e h
    refine ⟨fun hi => (nomatch hi), ?_⟩
    rintro rfl
    rw [i.checked] at h
    cases h

/-- The generation that the phase starts. -/
def selectedTarget (i : CaddyStartIntent) : CaddyStartTarget :=
  match i.phase with
  | .rollbackRestartRequired | .recoveryStarting => i.previous.getD i.candidate
  | _ => i.candidate

end CaddyStartIntent

/-! ## The durable form -/

def startSchema : String := "lowerduckpond-caddy-start-intent-v1"

def CaddyStartTarget.toDict (t : CaddyStartTarget) : Json :=
  .object [("generationId", .string t.generationId), ("manifestSha256", .string t.manifestSha256)]

namespace StartFields

def optionalText : Option String → Json
  | none => .null
  | some text => .string text

/-- The members of the durable document, in their canonical order. -/
def toDocument (f : StartFields) : List (String × Json) :=
  [("candidate", f.candidate.toDict),
    ("candidateInvocations", .array (f.candidateInvocations.map .string)),
    ("invocationId", optionalText f.invocationId),
    ("mode", .string f.mode.value),
    ("phase", .string f.phase.value),
    ("previous", match f.previous with
      | none => .null
      | some target => target.toDict),
    ("recoveryInvocations", .array (f.recoveryInvocations.map .string))] ++
  (if f.mode = .hostRestore then [("restoreId", optionalText f.restoreId)] else []) ++
  [("schema", .string startSchema)]

end StartFields

variable (json : JsonText)

/-- `canonical_json_bytes`, with its bound. -/
def canonicalBytes (document : Json) : Except StartupError Bytes :=
  match json.dumps document with
  | none => .error (.contract (schemaInvalid "value is not canonicalizable JSON"))
  | some raw =>
      if raw.length ≤ maxCaddyStartIntentBytes then .ok raw
      else .error (.contract ⟨.canonicalTooLarge, "canonical JSON exceeds its limit"⟩)

def CaddyStartIntent.toBytes (i : CaddyStartIntent) : Except StartupError Bytes :=
  canonicalBytes json (.object i.toDocument)

/-- What the decoder raises for every error that is not a startup error. -/
def intentInvalid : StartupError := .startup "Caddy startup intent is invalid"

def decodeMode (value : String) : Except StartupError CaddyStartMode :=
  match [CaddyStartMode.ordinary, .transactional, .hostRestore].find? (·.value == value) with
  | some mode => .ok mode
  | none => .error intentInvalid

def decodePhase (value : String) : Except StartupError CaddyStartPhase :=
  match [CaddyStartPhase.candidatePrepared, .restartRequired, .ordinaryStarting, .candidateStarting,
      .rollbackRestartRequired, .recoveryStarting].find? (·.value == value) with
  | some phase => .ok phase
  | none => .error intentInvalid

/-- `set(members) == names`. -/
def hasExactly (names : List String) (members : List (String × Json)) : Bool :=
  members.all (fun member => names.contains member.1) &&
    names.all fun name => (members.lookup name).isSome

def decodeTarget (value : Json) : Except StartupError CaddyStartTarget :=
  match value with
  | .object members => do
      require (hasExactly ["generationId", "manifestSha256"] members)
        (.startup "startup target has unexpected members")
      match members.lookup "generationId", members.lookup "manifestSha256" with
      | some (.string generationId), some (.string digest) =>
          CaddyStartTarget.make generationId digest
      | _, _ => .error (.startup "startup target fields are invalid")
  | _ => .error (.startup "startup target has unexpected members")

def decodeInvocation (value : Json) : Except StartupError String :=
  match value with
  | .string text => .ok text
  | _ => .error (.startup "startup invocation evidence is invalid")

def decodeInvocations (value : Json) : Except StartupError (List String) :=
  match value with
  | .array elements => elements.mapM decodeInvocation
  | _ => .error (.startup "startup invocation evidence is invalid")

/-- An optional text of the document. -/
def decodeText (value : Json) : Except StartupError (Option String) :=
  match value with
  | .null => .ok none
  | .string text => .ok (some text)
  | _ => .error (.startup "Caddy startup intent fields are invalid")

def decodeRequired (value : Json) : Except StartupError String :=
  match value with
  | .string text => .ok text
  | _ => .error (.startup "Caddy startup intent fields are invalid")

def decodePrevious (value : Json) : Except StartupError (Option CaddyStartTarget) :=
  match value with
  | .null => .ok none
  | value => some <$> decodeTarget value

/-- The identity of a host restore; the other modes have none. -/
def decodeRestoreId (mode : String) (value : Json) : Except StartupError (Option String) :=
  if mode = CaddyStartMode.hostRestore.value then
    match value with
    | .string text => do
        require (isUuid7 text) intentInvalid
        pure (some text)
    | _ => .error intentInvalid
  else .ok none

def isText (text : String) : Json → Bool
  | .string value => value == text
  | _ => false

def memberNames (members : List (String × Json)) : List String :=
  ["candidate", "candidateInvocations", "invocationId", "mode", "phase", "previous",
    "recoveryInvocations", "schema"] ++
  (if (members.lookup "mode").any (isText CaddyStartMode.hostRestore.value) then ["restoreId"]
    else [])

/-- The value of a member that the document has. -/
def member (members : List (String × Json)) (name : String) : Json :=
  (members.lookup name).getD .null

/-- The fields of a document with the right members. -/
def decodeFields (members : List (String × Json)) : Except StartupError StartFields := do
  let mode ← decodeRequired (member members "mode")
  let phase ← decodeRequired (member members "phase")
  let invocationId ← decodeText (member members "invocationId")
  let startMode ← decodeMode mode
  let startPhase ← decodePhase phase
  let candidate ← decodeTarget (member members "candidate")
  let previous ← decodePrevious (member members "previous")
  let candidateInvocations ← decodeInvocations (member members "candidateInvocations")
  let recoveryInvocations ← decodeInvocations (member members "recoveryInvocations")
  let restoreId ← decodeRestoreId mode (member members "restoreId")
  pure ⟨startMode, startPhase, candidate, previous, candidateInvocations, recoveryInvocations,
    invocationId, restoreId⟩

/-- `decode_caddy_start_intent`: exact startup evidence, including its attempt fences. -/
def decodeCaddyStartIntent (data : Bytes) : Except StartupError CaddyStartIntent :=
  if maxCaddyStartIntentBytes < data.length then .error intentInvalid
  else
    match json.loads data with
    | some (.object members) => do
        let canonical ← mapError (fun _ => intentInvalid) (canonicalBytes json (.object members))
        require (decide (canonical = data)) (.startup "Caddy startup intent is not canonical")
        require (hasExactly (memberNames members) members &&
            isText startSchema (member members "schema"))
          (.startup "Caddy startup intent schema is not recognized")
        let fields ← decodeFields members
        mapError (fun
          | .startup message => .startup message
          | _ => intentInvalid) (CaddyStartIntent.make fields)
    | _ => .error intentInvalid

/-! ## A stored intent is read back -/

theorem decodeMode_value (mode : CaddyStartMode) : decodeMode mode.value = .ok mode := by
  cases mode <;> decide

theorem decodePhase_value (phase : CaddyStartPhase) : decodePhase phase.value = .ok phase := by
  cases phase <;> decide

theorem decodeTarget_toDict (t : CaddyStartTarget) : decodeTarget t.toDict = .ok t := by
  show CaddyStartTarget.make t.generationId t.manifestSha256 = .ok t
  unfold CaddyStartTarget.make
  rw [dif_pos t.generation_valid, dif_pos t.manifest_valid]

theorem decodeInvocations_texts (texts : List String) :
    decodeInvocations (.array (texts.map .string)) = .ok texts := by
  show (texts.map Json.string).mapM decodeInvocation = .ok texts
  induction texts with
  | nil => rfl
  | cons text texts ih =>
      rw [List.map_cons, List.mapM_cons]
      show (decodeInvocation (.string text) >>= fun y =>
        (texts.map Json.string).mapM decodeInvocation >>= fun ys => pure (y :: ys)) = _
      rw [ih]
      rfl

theorem decodeText_optional (text : Option String) :
    decodeText (StartFields.optionalText text) = .ok text := by
  cases text <;> rfl

theorem optionalText_ordered (text : Option String) :
    (StartFields.optionalText text).Ordered := by
  cases text with
  | none => exact .null
  | some text => exact .string text

theorem toDict_ordered (t : CaddyStartTarget) : t.toDict.Ordered := by
  have hnames : Json.NamesOrdered ["generationId", "manifestSha256"] := by decide
  refine .object _ hnames ?_
  simp only [List.forall_mem_cons, List.not_mem_nil, false_implies, implies_true, and_true]
  exact ⟨.string _, .string _⟩

theorem texts_ordered (texts : List String) : (Json.array (texts.map .string)).Ordered := by
  refine .array _ fun e he => ?_
  obtain ⟨text, -, rfl⟩ := List.mem_map.1 he
  exact .string text

theorem toDocument_ordered (f : StartFields) : (Json.object f.toDocument).Ordered := by
  have hprevious : (match f.previous with
      | none => Json.null
      | some target => target.toDict).Ordered := by
    cases f.previous with
    | none => exact .null
    | some target => exact toDict_ordered target
  cases hmode : decide (f.mode = .hostRestore) with
  | true =>
      have hnames : Json.NamesOrdered ["candidate", "candidateInvocations", "invocationId", "mode",
          "phase", "previous", "recoveryInvocations", "restoreId", "schema"] := by decide
      unfold StartFields.toDocument
      rw [if_pos (of_decide_eq_true hmode)]
      refine .object _ hnames ?_
      simp only [List.cons_append, List.nil_append, List.forall_mem_cons, List.not_mem_nil,
        false_implies, implies_true, and_true]
      exact ⟨toDict_ordered _, texts_ordered _, optionalText_ordered _, .string _, .string _,
        hprevious, texts_ordered _, optionalText_ordered _, .string _⟩
  | false =>
      have hnames : Json.NamesOrdered ["candidate", "candidateInvocations", "invocationId", "mode",
          "phase", "previous", "recoveryInvocations", "schema"] := by decide
      unfold StartFields.toDocument
      rw [if_neg (of_decide_eq_false hmode)]
      refine .object _ hnames ?_
      simp only [List.cons_append, List.nil_append, List.append_nil, List.forall_mem_cons,
        List.not_mem_nil, false_implies, implies_true, and_true]
      exact ⟨toDict_ordered _, texts_ordered _, optionalText_ordered _, .string _, .string _,
        hprevious, texts_ordered _, .string _⟩

theorem decodePrevious_previous (previous : Option CaddyStartTarget) :
    decodePrevious (match previous with
      | none => .null
      | some target => target.toDict) = .ok previous := by
  cases previous with
  | none => rfl
  | some target =>
      show some <$> decodeTarget target.toDict = _
      rw [decodeTarget_toDict]
      rfl

theorem StartFields.Shape.restoreId {f : StartFields} (h : f.Shape) :
    (f.mode = .hostRestore ∧ ∃ id, f.restoreId = some id ∧ isUuid7 id = true) ∨
      (f.mode ≠ .hostRestore ∧ f.restoreId = none) := by
  cases h with
  | restorePrepared id hmode hid hvalid | restoreStarting id hmode hid hvalid =>
      exact Or.inl ⟨hmode, id, hid, hvalid⟩
  | ordinary hmode hid | prepared _ hmode hid | candidateStarting _ hmode hid
  | rollbackRequired _ hmode hid | recoveryStarting _ hmode hid =>
      exact Or.inr ⟨by rw [hmode]; decide, hid⟩

theorem decodeRestoreId_restoreId {f : StartFields} (h : f.Shape) :
    decodeRestoreId f.mode.value (member f.toDocument "restoreId") = .ok f.restoreId := by
  rcases h.restoreId with ⟨hmode, id, hid, hvalid⟩ | ⟨hmode, hid⟩
  · have hmember : member f.toDocument "restoreId" = .string id := by
      unfold StartFields.toDocument
      rw [if_pos hmode, hid]
      rfl
    rw [hmember, hmode, hid, decodeRestoreId, if_pos rfl]
    show (require (isUuid7 id) intentInvalid >>= fun _ => pure (some id)) = _
    rw [hvalid]
    rfl
  · have hne : f.mode.value ≠ CaddyStartMode.hostRestore.value := by
      cases hm : f.mode with
      | hostRestore => exact absurd hm hmode
      | ordinary | transactional => decide
    unfold decodeRestoreId
    rw [if_neg hne, hid]

theorem decodeFields_toDocument {f : StartFields} (h : f.Shape) :
    decodeFields f.toDocument = .ok f := by
  have hmode : decodeRequired (member f.toDocument "mode") = .ok f.mode.value := rfl
  have hphase : decodeRequired (member f.toDocument "phase") = .ok f.phase.value := rfl
  have hinvocation : decodeText (member f.toDocument "invocationId") = .ok f.invocationId :=
    decodeText_optional f.invocationId
  have hcandidate : decodeTarget (member f.toDocument "candidate") = .ok f.candidate :=
    decodeTarget_toDict f.candidate
  have hprevious : decodePrevious (member f.toDocument "previous") = .ok f.previous :=
    decodePrevious_previous f.previous
  have hcandidates : decodeInvocations (member f.toDocument "candidateInvocations") =
      .ok f.candidateInvocations := decodeInvocations_texts f.candidateInvocations
  have hrecoveries : decodeInvocations (member f.toDocument "recoveryInvocations") =
      .ok f.recoveryInvocations := decodeInvocations_texts f.recoveryInvocations
  unfold decodeFields
  rw [hmode, ok_bind, hphase, ok_bind, hinvocation, ok_bind, decodeMode_value, ok_bind,
    decodePhase_value, ok_bind, hcandidate, ok_bind, hprevious, ok_bind, hcandidates, ok_bind,
    hrecoveries, ok_bind, decodeRestoreId_restoreId h, ok_bind]
  rfl

theorem hasExactly_toDocument (f : StartFields) :
    hasExactly (memberNames f.toDocument) f.toDocument = true := by
  cases hmode : decide (f.mode = .hostRestore) with
  | true =>
      unfold StartFields.toDocument
      rw [if_pos (of_decide_eq_true hmode), of_decide_eq_true hmode]
      rfl
  | false =>
      have hnames : memberNames f.toDocument = ["candidate", "candidateInvocations", "invocationId",
          "mode", "phase", "previous", "recoveryInvocations", "schema"] := by
        have hmember : f.toDocument.lookup "mode" = some (.string f.mode.value) := rfl
        unfold memberNames
        rw [hmember]
        cases hm : f.mode with
        | hostRestore => exact absurd hm (of_decide_eq_false hmode)
        | ordinary | transactional => rfl
      rw [hnames]
      unfold StartFields.toDocument
      rw [if_neg (of_decide_eq_false hmode)]
      rfl

theorem schema_toDocument (f : StartFields) :
    isText startSchema (member f.toDocument "schema") = true := by
  unfold StartFields.toDocument
  by_cases hmode : f.mode = .hostRestore
  · rw [if_pos hmode]
    rfl
  · rw [if_neg hmode]
    rfl

theorem canonicalBytes_eq_ok {document : Json} {raw : Bytes} :
    canonicalBytes json document = .ok raw ↔
      json.dumps document = some raw ∧ raw.length ≤ maxCaddyStartIntentBytes := by
  unfold canonicalBytes
  cases json.dumps document with
  | none => simp
  | some bytes =>
      simp only [Option.some.injEq]
      split
      · rename_i hsize
        rw [Except.ok.injEq]
        exact ⟨fun h => ⟨h, h ▸ hsize⟩, fun h => h.1⟩
      · rename_i hsize
        refine ⟨fun h => (nomatch h), ?_⟩
        rintro ⟨rfl, h⟩
        exact absurd h hsize

/-- What an intent was written as is decoded into it. -/
theorem decode_toBytes {i : CaddyStartIntent} {raw : Bytes} (h : i.toBytes json = .ok raw) :
    decodeCaddyStartIntent json raw = .ok i := by
  obtain ⟨hdumps, hsize⟩ := (canonicalBytes_eq_ok json).1 h
  have hloads := json.loads_dumps _ raw (toDocument_ordered i.toStartFields) hdumps
  have hshape := (StartFields.valid_of_postInit i.checked).shape
  unfold decodeCaddyStartIntent
  rw [if_neg (by omega), hloads]
  show (mapError (fun _ => intentInvalid) (canonicalBytes json (.object i.toDocument)) >>= _) = _
  rw [show canonicalBytes json (.object i.toDocument) = .ok raw from h, mapError, ok_bind,
    decide_eq_true rfl, require_true, ok_bind, hasExactly_toDocument, schema_toDocument,
    Bool.and_self, require_true, ok_bind, decodeFields_toDocument hshape, ok_bind,
    CaddyStartIntent.make_eq_ok.2 rfl]
  rfl

end StaticHostAgent.Caddy
