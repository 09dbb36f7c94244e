import StaticHostAgent.Contracts.Texts
import StaticHostAgent.Library.WriteOnce
import Mathlib.Data.List.Sort
import Mathlib.Data.String.Basic

/-!
# The directory of a credential lease

The private durable facts of one lease (`LeaseState`). Every fact is one write-once file: the claim
of the issuer, the submission of a role, what was created for it and its secret, the stop of the
issuer, the uses of the fixtures and their releases. An interrupted write leaves a torn file that
every reader rejects and that nobody replaces.
-/

set_option autoImplicit false

namespace StaticHostAgent.Lease

open Library Contracts

inductive LeaseError where
  | lifecycle (message : String)
  | value (message : String)
  | fileNotFound
  | fileExists
  deriving DecidableEq

/-! ## Roles and manifests -/

/-- `ROLES`, in the order of their names. -/
inductive Role where
  | archive | audit | backup | caddy | observer | operator | pageRules
  deriving DecidableEq

def Role.value : Role → String
  | .archive => "archive"
  | .audit => "audit"
  | .backup => "backup"
  | .caddy => "caddy"
  | .observer => "observer"
  | .operator => "operator"
  | .pageRules => "page-rules"

theorem Role.value_injective : Function.Injective Role.value := by
  intro a b h
  cases a <;> cases b <;> first | rfl | exact absurd h (by decide)

/-- A credential creation intent: its role and the canonical text of its other members. -/
structure Intent where
  role : Role
  details : String
  deriving DecidableEq

/-- A lease manifest: one intent for every role, and the canonical text of its other members. -/
structure LeaseManifest where
  intents : List Intent
  details : String
  roles_nodup : (intents.map Intent.role).Nodup
  roles_complete : ∀ role, role ∈ intents.map Intent.role
  deriving DecidableEq

/-- An intent of a manifest is determined by its role. -/
theorem LeaseManifest.intent_eq (m : LeaseManifest) {i j : Intent} (hi : i ∈ m.intents)
    (hj : j ∈ m.intents) (h : i.role = j.role) : i = j :=
  List.inj_on_of_nodup_map m.roles_nodup hi hj h

/-! ## Records -/

/-- The stop proof of the issuer. -/
structure StopProof where
  writerSha256 : String
  stoppedAt : String
  retainedRoles : List String
  deriving DecidableEq

/-- One runtime use of the lease. -/
structure Use where
  attemptId : String
  bindingSha256 : String
  kind : String
  deriving DecidableEq

/-- A retained fixture as the drainer saw it. -/
structure Container where
  id : String
  name : String
  image : String
  owner : String
  running : Bool
  restartPolicy : String
  deriving DecidableEq

/-- The members that only a proof of the allocation format has. -/
structure AllocationClaim where
  allocationSha256 : String
  bindingSha256 : String
  daemonSha256 : String
  endpoint : String
  owner : String
  deriving DecidableEq

/-- The proof of the host and guest drainer. -/
structure Quiescence where
  hostCommandsDrained : Bool
  complete : Bool
  containers : List Container
  allocation : Option AllocationClaim
  deriving DecidableEq

/-- The document of one file. -/
inductive LeaseRecord where
  | manifest (m : LeaseManifest)
  | issuer (writerSha256 manifestSha256 : String)
  | binding (manifestSha256 : String) (proof : StopProof)
  | stopped (proof : StopProof)
  | submitting (intentSha256 writerSha256 : String)
  | created (intentSha256 credentialId : String)
  | credential (intentSha256 identifier secret : String)
  | use (record : Use)
  | released (useSha256 : String) (quiescence : Quiescence)
  deriving DecidableEq

/-! ## File names -/

inductive LeaseName where
  | manifest | issuer | issuerStopBinding | issuerStopped
  | submitting (role : Role)
  | created (role : Role)
  | credential (role : Role)
  | use (attemptId : String)
  | released (attemptId : String)

namespace LeaseName

/-- The file name in the lease directory. -/
def text : LeaseName → String
  | manifest => "manifest.json"
  | issuer => "issuer.json"
  | issuerStopBinding => "issuer-stop-binding.json"
  | issuerStopped => "issuer-stopped.json"
  | submitting role => "submitting-" ++ role.value ++ ".json"
  | created role => "created-" ++ role.value ++ ".json"
  | credential role => "credential-" ++ role.value ++ ".json"
  | use attemptId => "use-" ++ attemptId ++ ".json"
  | released attemptId => "released-" ++ attemptId ++ ".json"

theorem affix_injective {head tail : String} {a b : String}
    (h : head ++ a ++ tail = head ++ b ++ tail) : a = b := by
  have hlist := congrArg String.toList h
  simp only [String.toList_append, List.append_assoc] at hlist
  exact String.toList_inj.1 (List.append_cancel_right (List.append_cancel_left hlist))

theorem toList_use (a : String) :
    (use a).text.toList = ['u', 's', 'e', '-'] ++ (a.toList ++ ".json".toList) := by
  simp only [text, String.toList_append, List.append_assoc]
  rfl

theorem toList_released (a : String) : (released a).text.toList =
    ['r', 'e', 'l', 'e', 'a', 's', 'e', 'd', '-'] ++ (a.toList ++ ".json".toList) := by
  simp only [text, String.toList_append, List.append_assoc]
  rfl

/-- The first and the fourth letter of a name tell what it is for. -/
def letters : LeaseName → Char × Char
  | manifest => ('m', 'i')
  | issuer | issuerStopBinding | issuerStopped => ('i', 'u')
  | submitting _ => ('s', 'm')
  | created _ => ('c', 'a')
  | credential _ => ('c', 'd')
  | use _ => ('u', '-')
  | released _ => ('r', 'e')

theorem letters_text (name : LeaseName) :
    name.text.toList.head? = some name.letters.1 ∧ name.text.toList[3]? = some name.letters.2 := by
  cases name with
  | use a => rw [toList_use]; exact ⟨rfl, rfl⟩
  | released a => rw [toList_released]; exact ⟨rfl, rfl⟩
  | submitting role => cases role <;> decide
  | created role => cases role <;> decide
  | credential role => cases role <;> decide
  | _ => decide

theorem text_injective : Function.Injective text := by
  intro x y h
  have hletters : x.letters = y.letters := by
    obtain ⟨hfirst, hfourth⟩ := letters_text x
    rw [h, (letters_text y).1] at hfirst
    rw [h, (letters_text y).2] at hfourth
    exact Prod.ext (Option.some.inj hfirst).symm (Option.some.inj hfourth).symm
  cases x with
  | manifest => cases y <;> first | rfl | simp [letters] at hletters
  | issuer | issuerStopBinding | issuerStopped =>
      cases y with
      | issuer | issuerStopBinding | issuerStopped =>
          first | rfl | exact absurd h (by decide)
      | _ => simp [letters] at hletters
  | submitting role =>
      cases y with
      | submitting role' => exact congrArg submitting (Role.value_injective (affix_injective h))
      | _ => simp [letters] at hletters
  | created role =>
      cases y with
      | created role' => exact congrArg created (Role.value_injective (affix_injective h))
      | _ => simp [letters] at hletters
  | credential role =>
      cases y with
      | credential role' => exact congrArg credential (Role.value_injective (affix_injective h))
      | _ => simp [letters] at hletters
  | use a =>
      cases y with
      | use b => exact congrArg use (affix_injective h)
      | _ => simp [letters] at hletters
  | released a =>
      cases y with
      | released b => exact congrArg released (affix_injective h)
      | _ => simp [letters] at hletters

/-- Names are ordered as their texts are. -/
instance : LinearOrder LeaseName := LinearOrder.lift' text text_injective

/-- `glob("use-*.json")` -/
def matchesUse (name : String) : Bool :=
  "use-".toList.isPrefixOf name.toList && ".json".toList.isSuffixOf name.toList

theorem matchesUse_use (a : String) : matchesUse (use a).text = true := by
  unfold matchesUse
  rw [Bool.and_eq_true, List.isPrefixOf_iff_prefix, List.isSuffixOf_iff_suffix, toList_use]
  exact ⟨List.prefix_append _ _, ⟨_, (List.append_assoc _ _ _)⟩⟩

end LeaseName

/-- The lease directory. -/
abbrev LeaseFiles : Type := WriteOnce LeaseName LeaseRecord

/-- What the lease takes from elsewhere: the digests of canonical documents, the timestamps that
the lifecycle accepts, and the records within the byte bound. -/
structure LeaseHost where
  manifestSha256 : LeaseManifest → String
  intentSha256 : Intent → String
  useSha256 : Use → String
  validInstant : String → Bool
  fits : LeaseRecord → Bool

/-! ## Reading and writing -/

/-- `read_private` on the content of a file -/
def readCell : Cell LeaseRecord → Except LeaseError LeaseRecord
  | .torn => .error (.value "combined private inputs are ambiguous or changed")
  | .complete record => .ok record

/-- `read_private` -/
def readPrivate (name : LeaseName) (files : LeaseFiles) : Except LeaseError LeaseRecord :=
  match files.find? name with
  | none => .error .fileNotFound
  | some cell => readCell cell

def missingFields : LeaseError :=
  .value "combined qualification fields are incomplete or unknown"

/-- `path.exists() or path.is_symlink()` -/
def present (name : LeaseName) (files : LeaseFiles) : Bool := (files.find? name).isSome

variable (h : LeaseHost)

/-- `write_private`; the error is the caller's for a name that is taken. -/
def writePrivate (name : LeaseName) (record : LeaseRecord) (occupied : LeaseError) :
    Durable LeaseFiles LeaseError Unit := do
  Durable.query fun _ => require (h.fits record)
    (.value "combined private inputs exceed their byte bound")
  WriteOnce.create name record occupied

/-- `LeaseState.retain` -/
def retain (name : LeaseName) (record : LeaseRecord) : Durable LeaseFiles LeaseError Unit := do
  let found ← Durable.query fun files => .ok (present name files)
  Durable.when (!found) (writePrivate h name record .fileExists)
  Durable.query fun files => do
    let stored ← readPrivate name files
    require (decide (stored = record)) (.lifecycle "original lease state cannot be replaced")

/-- `LeaseState.manifest` -/
def readManifest (files : LeaseFiles) : Except LeaseError LeaseManifest := do
  match ← readPrivate .manifest files with
  | .manifest m => .ok m
  | _ => .error missingFields

/-- `fingerprint` -/
def fingerprint (text : String) : Except LeaseError Unit :=
  require (isSha256 text) (.lifecycle "invalid lifecycle digest")

/-- `identity` -/
def identity (text : String) : Except LeaseError Unit :=
  require (isUuid7 text) (.lifecycle "invalid lifecycle identity")

/-- `instant` -/
def instant (text : String) : Except LeaseError Unit :=
  require (h.validInstant text) (.lifecycle "invalid lifecycle timestamp")

/-! ## Issuance -/

/-- `LeaseState.claim_issuer` -/
def claimIssuer (writerSha256 : String) : Durable LeaseFiles LeaseError Unit := do
  Durable.query fun _ => fingerprint writerSha256
  let m ← Durable.query readManifest
  writePrivate h .issuer (.issuer writerSha256 (h.manifestSha256 m))
    (.lifecycle "an existing lease issuer cannot be replayed or adopted")

/-- `LeaseState._require_writer_binding` -/
def requireWriterBinding (writerSha256 : String) (m : LeaseManifest) (files : LeaseFiles) :
    Except LeaseError Unit := do
  fingerprint writerSha256
  let stored ← readPrivate .issuer files
  require (decide (stored = .issuer writerSha256 (h.manifestSha256 m)))
    (.lifecycle "lease issuance writer differs from the original invocation")

/-- `LeaseState.require_writer` -/
def requireWriter (writerSha256 : String) (files : LeaseFiles) : Except LeaseError Unit := do
  let m ← readManifest files
  requireWriterBinding h writerSha256 m files
  require (!(present .issuerStopped files || present .issuerStopBinding files))
    (.lifecycle "lease issuance writer is not the original active invocation")

/-- `LeaseState.submitting` -/
def submitting (intent : Intent) (writerSha256 : String) : Durable LeaseFiles LeaseError Unit := do
  Durable.query (requireWriter h writerSha256)
  let m ← Durable.query readManifest
  Durable.query fun _ => require (decide (intent ∈ m.intents))
    (.lifecycle "credential submission escaped the lease manifest")
  writePrivate h (.submitting intent.role) (.submitting (h.intentSha256 intent) writerSha256)
    (.lifecycle "credential CREATE may already have been submitted")

/-- `LeaseState.remember` -/
def remember (intent : Intent) (identifier : String) (secret : Option String) :
    Durable LeaseFiles LeaseError Unit := do
  let m ← Durable.query readManifest
  Durable.query fun _ => require (decide (intent ∈ m.intents))
    (.lifecycle "credential delivery escaped the lease manifest")
  retain h (.created intent.role) (.created (h.intentSha256 intent) identifier)
  match secret with
  | none => pure ()
  | some secret =>
      retain h (.credential intent.role)
        (.credential (h.intentSha256 intent) identifier secret)

/-- `LeaseState.credential`: the identifier and the secret. -/
def credential (intent : Intent) (files : LeaseFiles) :
    Except LeaseError (Option (String × String)) :=
  if present (.credential intent.role) files then do
    match ← readPrivate (.credential intent.role) files with
    | .credential intentSha256 identifier secret =>
        require (decide (intentSha256 = h.intentSha256 intent) && decide (secret ≠ ""))
          (.lifecycle "retained lease credential differs from its intent")
        .ok (some (identifier, secret))
    | _ => .error missingFields
  else .ok none

/-- `LeaseState.created`: the identifier. -/
def created (intent : Intent) (files : LeaseFiles) : Except LeaseError (Option String) :=
  if present (.created intent.role) files then do
    match ← readPrivate (.created intent.role) files with
    | .created intentSha256 credentialId =>
        require (decide (intentSha256 = h.intentSha256 intent))
          (.lifecycle "retained credential ID differs from its intent")
        .ok (some credentialId)
    | _ => .error missingFields
  else .ok none

/-! ## The stop of the issuer -/

def stopProofDiffers : LeaseError := .lifecycle "original lease issuer stop proof differs"

/-- `LeaseState._stop_proof` on a stop document -/
def stopProof (proof : StopProof) (m : LeaseManifest) (writerSha256 : String)
    (files : LeaseFiles) : Except LeaseError Unit := do
  instant h proof.stoppedAt
  require (decide (proof.writerSha256 = writerSha256)) stopProofDiffers
  require (decide (proof.retainedRoles = proof.retainedRoles.dedup.insertionSort (· ≤ ·)))
    stopProofDiffers
  require (proof.retainedRoles.all fun role => m.intents.any fun i => i.role.value == role)
    stopProofDiffers
  m.intents.forM fun intent =>
    checkIf (proof.retainedRoles.contains intent.role.value) do
      let record ← created h intent files
      require record.isSome stopProofDiffers

/-- The binding of the stop proof, or the fact published elsewhere. -/
def boundProof (proof : StopProof) (m : LeaseManifest) (published : Option StopProof)
    (files : LeaseFiles) : Except LeaseError Unit :=
  if present .issuerStopBinding files then do
    let stored ← readPrivate .issuerStopBinding files
    require (decide (stored = .binding (h.manifestSha256 m) proof))
      (.lifecycle "original lease issuer stop proof differs from its binding")
  else
    require (decide (published = some proof))
      (.lifecycle "original lease issuer stop proof lacks its original binding")

/-- `LeaseState.issuer_stop` -/
def issuerStop (published : Option StopProof) (files : LeaseFiles) :
    Except LeaseError (Option StopProof) :=
  if present .issuerStopped files then do
    let m ← readManifest files
    match ← readPrivate .issuer files with
    | .issuer writerSha256 _ =>
        fingerprint writerSha256
        requireWriterBinding h writerSha256 m files
        match ← readPrivate .issuerStopped files with
        | .stopped proof =>
            stopProof h proof m writerSha256 files
            boundProof h proof m published files
            .ok (some proof)
        | _ => .error missingFields
    | _ => .error missingFields
  else .ok none

/-- The roles whose secret is retained, in order. -/
def retainedRoles (m : LeaseManifest) (files : LeaseFiles) : Except LeaseError (List String) := do
  let kept ← m.intents.mapM fun intent => do
    let found ← credential h intent files
    .ok (if found.isSome then [intent.role.value] else [])
  .ok (kept.flatten.insertionSort (· ≤ ·))

/-- The proof that an earlier call bound. -/
def readBinding (m : LeaseManifest) (writerSha256 : String) (files : LeaseFiles) :
    Except LeaseError StopProof := do
  match ← readPrivate .issuerStopBinding files with
  | .binding manifestSha256 proof =>
      require (decide (manifestSha256 = h.manifestSha256 m))
        (.lifecycle "original lease issuer stop proof differs from its manifest")
      stopProof h proof m writerSha256 files
      .ok proof
  | _ => .error missingFields

/-- The proof to expose: the one that is bound, or a new one that is bound first. -/
def bindProof (m : LeaseManifest) (writerSha256 stoppedAt : String) :
    Durable LeaseFiles LeaseError StopProof := do
  let bound ← Durable.query fun files => .ok (present .issuerStopBinding files)
  if bound then Durable.query (readBinding h m writerSha256)
  else do
    let roles ← Durable.query (retainedRoles h m)
    -- the binding also fences issuance if the run stops before the proof is exposed
    retain h .issuerStopBinding (.binding (h.manifestSha256 m) ⟨writerSha256, stoppedAt, roles⟩)
    pure ⟨writerSha256, stoppedAt, roles⟩

/-- `LeaseState.finish_issuer` -/
def finishIssuer (writerSha256 stoppedAt : String) : Durable LeaseFiles LeaseError StopProof := do
  let m ← Durable.query readManifest
  Durable.query (requireWriterBinding h writerSha256 m)
  Durable.query fun _ => instant h stoppedAt
  let stopped ← Durable.query (issuerStop h none)
  match stopped with
  | some proof => pure proof
  | none => do
      let proof ← bindProof h m writerSha256 stoppedAt
      retain h .issuerStopped (.stopped proof)
      pure proof

/-! ## Runtime use -/

/-- One file of the listing in `acquire_use`: it must be a use that was released. -/
def requireReleased (files : LeaseFiles) (cell : Cell LeaseRecord) : Except LeaseError Unit := do
  match ← readCell cell with
  | .use previous =>
      identity previous.attemptId
      require (present (.released previous.attemptId) files)
        (.lifecycle "previous lease consumer has not established quiescence")
      match ← readPrivate (.released previous.attemptId) files with
      | .released useSha256 _ =>
          require (decide (useSha256 = h.useSha256 previous))
            (.lifecycle "lease release belongs to another runtime consumer")
      | _ => .error missingFields
  | _ => .error missingFields

/-- `LeaseState.acquire_use` -/
def acquireUse (attemptId bindingSha256 kind : String) : Durable LeaseFiles LeaseError Unit := do
  Durable.query fun _ => identity attemptId
  Durable.query fun _ => fingerprint bindingSha256
  Durable.query fun _ => require (decide (kind = "attempt") || decide (kind = "diagnostic"))
    (.lifecycle "lease runtime use kind is invalid")
  Durable.query fun files =>
    (files.entries.filter fun entry => LeaseName.matchesUse entry.1.text).forM fun entry =>
      requireReleased h files entry.2
  writePrivate h (.use attemptId) (.use ⟨attemptId, bindingSha256, kind⟩) .fileExists

/-- One row of the drainer's proof, against the fixtures seen so far. -/
def requireRetired (seen : List String) (row : Container) : Except LeaseError (List String) := do
  require (!row.running && decide (row.restartPolicy = "no"))
    (.lifecycle "retained fixture can still execute or restart")
  fingerprint row.id
  require (!(seen.contains row.id)) (.lifecycle "quiescence repeats a retained fixture")
  .ok (row.id :: seen)

/-- What the run directory of the attempt says about its allocation and its host. -/
structure ProducerRecords where
  allocationSha256 : String
  bindingSha256 : String
  requestBindingSha256 : String
  daemonSha256 : String
  sameDaemon : Bool
  owner : String
  endpoint : String
  /-- The binding of a host that was drained. -/
  hostDrained : Option String
  journeyFinished : Bool
  /-- The created fixtures: identifier, name, image and owner. -/
  identities : List (String × String × String × String)
  deriving DecidableEq

/-- The claim of an allocation proof against the records of its producer. -/
def producerBound (claim : AllocationClaim) (containers : List Container) (record : Use)
    (producer : ProducerRecords) : Bool :=
  decide (claim.allocationSha256 = producer.allocationSha256) &&
    decide (claim.bindingSha256 = producer.bindingSha256) &&
    decide (claim.bindingSha256 = record.bindingSha256) &&
    decide (claim.bindingSha256 = producer.requestBindingSha256) &&
    decide (claim.daemonSha256 = producer.daemonSha256) && producer.sameDaemon &&
    decide (claim.owner = producer.owner) && decide (claim.endpoint = producer.endpoint) &&
    decide (producer.hostDrained = some record.bindingSha256) && producer.journeyFinished &&
    decide (((containers.map fun row => (row.id, row.name, row.image, row.owner)).Perm
      producer.identities))

/-- The members of the drainer's proof. -/
def requireQuiescent (quiescence : Quiescence) : Except LeaseError Unit := do
  require (quiescence.hostCommandsDrained && quiescence.complete &&
      (quiescence.allocation.isSome || !quiescence.containers.isEmpty))
    (.lifecycle "lease consumer quiescence is unresolved")
  let _ ← quiescence.containers.foldlM requireRetired []

/-- The use of an attempt. -/
def readUse (attemptId : String) (files : LeaseFiles) : Except LeaseError Use := do
  identity attemptId
  match ← readPrivate (.use attemptId) files with
  | .use record => .ok record
  | _ => .error missingFields

/-- An allocation proof must agree with the records of its producer, as far as these are there. -/
def requireProducer (quiescence : Quiescence) (record : Use) (producer : Option ProducerRecords) :
    Except LeaseError Unit :=
  match quiescence.allocation, producer with
  | none, _ => .ok ()
  | some _, none => .error .fileNotFound
  | some claim, some producer =>
      require (producerBound claim quiescence.containers record producer)
        (.lifecycle "quiescence lacks its bound producer allocation and host drain")

/-- `LeaseState.release_use` -/
def releaseUse (attemptId : String) (quiescence : Quiescence) (producer : Option ProducerRecords) :
    Durable LeaseFiles LeaseError Unit := do
  Durable.query fun _ => requireQuiescent quiescence
  let record ← Durable.query (readUse attemptId)
  Durable.query fun _ => requireProducer quiescence record producer
  retain h (.released attemptId) (.released (h.useSha256 record) quiescence)

end StaticHostAgent.Lease
